/-
**The type registry of `vd_meta.h`.**

Descriptors are kept in hash buckets by id, and their names with the ids in buckets by name. Names are
the bytes of C strings without the terminator. `MetaRegistry.Lists` says what the buckets hold: the
descriptors registered so far, in order.

* `metaRegisterAll_lists` — every run of registrations keeps it.
* `metaGetDescriptor_of_mem`, `metaGetId_of_mem` — distinct ids and names are found again.
-/

import Vaudou.Foundation.BlockHeap
import Vaudou.Foundation.Decimal
import Vaudou.Foundation.Hash

namespace Vaudou

open Vaudou.Memory Vaudou.Text

/-- `VD_Meta_TypeClass`. -/
inductive MetaTypeClass where
  | primitive | string | array | object
deriving DecidableEq, Repr

/-- `VD_Meta_PrimitiveType`. -/
inductive MetaPrimitiveType where
  | i8 | u8 | i16 | u16 | i32 | u32 | i64 | u64 | f32 | f64 | char8
deriving DecidableEq, Repr

/-- `VD_Meta_StringType`. -/
inductive MetaStringType where
  | cstring | slice
deriving DecidableEq, Repr

/-- `VD_Meta_IntrusiveArrayProperties`: `len` of an array, and `add`, which makes room for one more
element of `size` bytes in the array whose pointer is at `array`. -/
structure IntrusiveArrayProps where
  len : Mem → (array : Nat) → Nat
  add : BlockHeap → (array size : Nat) → Option BlockHeap

/-- `VD_Meta_Field`. -/
structure MetaField where
  name : List UInt8
  type : Nat
  offset : Nat
  flags : Nat
  fixedArrayLen : Nat
  intrusiveProps : Option IntrusiveArrayProps

/-- `field->flags & VD_META_FIELD_FLAG_FIXED_ARRAY`. -/
def MetaField.isFixedArray (field : MetaField) : Bool := field.flags.testBit 0

/-- `field->flags & VD_META_FIELD_FLAG_INTRUSIVE_ARRAY`. -/
def MetaField.isIntrusiveArray (field : MetaField) : Bool := field.flags.testBit 1

/-- `VD_Meta_Descriptor`. -/
structure MetaDescriptor where
  name : List UInt8
  typeClass : MetaTypeClass
  size : Nat
  id : Nat
  primitive : MetaPrimitiveType
  fields : List MetaField
  string : MetaStringType

/-- `VD_Meta__IDEntry`. -/
structure MetaIdEntry where
  id : Nat
  name : List UInt8
deriving DecidableEq, Repr

/-- `VD_Meta_Registry`. -/
structure MetaRegistry where
  props : IntrusiveArrayProps
  table : Nat → List MetaDescriptor
  tableCap : Nat
  typeIds : Nat → List MetaIdEntry
  typeIdsCap : Nat
  nextId : Nat

/-! ### The hash -/

/-- `vd_meta__hash`; the length is a `uint32_t`. -/
def metaHash (key : List UInt8) (seed : Nat) : Nat :=
  hashFrom key (seed ^^^ key.length % 2 ^ 32)

/-! ### Registering and looking up -/

section Tables

variable (reg : MetaRegistry)

/-- The bucket of an id. -/
def MetaRegistry.idIndex (id : Nat) : Nat := metaHash (leBytes 8 id) 0x23320 % reg.tableCap

/-- The bucket of a name. -/
def MetaRegistry.nameIndex (name : List UInt8) : Nat := metaHash name 0x29024 % reg.typeIdsCap

/-- The `copy_desc` of `vd_meta_register`: an id of 0 becomes the next one. -/
def copyDescriptor (descriptor : MetaDescriptor) : MetaDescriptor :=
  if descriptor.id = 0 then { descriptor with id := reg.nextId } else descriptor

/-- `vd_meta_register`. -/
def metaRegister (descriptor : MetaDescriptor) : MetaRegistry × Nat :=
  let copy := copyDescriptor reg descriptor
  let idindex := reg.idIndex copy.id
  let nameindex := reg.nameIndex descriptor.name
  ({ reg with
      nextId := if descriptor.id = 0 then (reg.nextId + 1) % 2 ^ 64 else reg.nextId
      typeIds := Function.update reg.typeIds nameindex
        (reg.typeIds nameindex ++ [⟨copy.id, copy.name⟩])
      table := Function.update reg.table idindex (reg.table idindex ++ [copy]) },
    copy.id)

/-- `vd_meta_get_id`: 0 if there is no such name. -/
def metaGetId (name : List UInt8) : Nat :=
  match (reg.typeIds (reg.nameIndex name)).find? fun entry => entry.name == name with
  | some entry => entry.id
  | none => 0

/-- `vd_meta_get_descriptor`. -/
def metaGetDescriptor (id : Nat) : Option MetaDescriptor :=
  (reg.table (reg.idIndex id)).find? fun descriptor => descriptor.id == id

end Tables

/-- A registry with empty tables, as `vd_meta_init` makes them. -/
def metaEmpty (props : IntrusiveArrayProps) : MetaRegistry :=
  ⟨props, fun _ => [], 256, fun _ => [], 256, 1⟩

/-- A type that `vd_meta_init` registers under `VD_META_OPTION_DEFINE_DEFAULT_TYPES`. -/
def defaultPrimitive (name : String) (size : Nat) (type : MetaPrimitiveType) : MetaDescriptor :=
  ⟨ascii name, .primitive, size, 0, type, [], .cstring⟩

/-- The types that `vd_meta_init` registers. -/
def metaDefaultTypes : List MetaDescriptor :=
  [defaultPrimitive "int8_t" 1 .i8, defaultPrimitive "uint8_t" 1 .u8,
   defaultPrimitive "int16_t" 2 .i16, defaultPrimitive "uint16_t" 2 .u16,
   defaultPrimitive "int32_t" 4 .i32, defaultPrimitive "uint32_t" 4 .u32,
   defaultPrimitive "int64_t" 8 .i64, defaultPrimitive "uint64_t" 8 .u64,
   defaultPrimitive "float" 4 .f32, defaultPrimitive "double" 8 .f64,
   defaultPrimitive "char" 1 .char8,
   ⟨ascii "CString", .string, 8, 0, .i8, [], .cstring⟩]

/-- Registers the types in order; also what the tables got for them. -/
def metaRegisterAll (reg : MetaRegistry) :
    List MetaDescriptor → MetaRegistry × List MetaDescriptor
  | [] => (reg, [])
  | descriptor :: rest =>
    let later := metaRegisterAll (metaRegister reg descriptor).1 rest
    (later.1, copyDescriptor reg descriptor :: later.2)

/-! ### What the tables hold -/

/-- **The buckets hold these descriptors**, each where its id and its name are looked up, in order. -/
structure MetaRegistry.Lists (reg : MetaRegistry) (all : List MetaDescriptor) : Prop where
  table : ∀ i, reg.table i = all.filter fun descriptor => reg.idIndex descriptor.id == i
  typeIds : ∀ i, reg.typeIds i =
    (all.filter fun descriptor => reg.nameIndex descriptor.name == i).map fun descriptor =>
      ⟨descriptor.id, descriptor.name⟩

section Lookups

variable {reg : MetaRegistry} {all : List MetaDescriptor}

theorem metaEmpty_lists (props : IntrusiveArrayProps) : (metaEmpty props).Lists [] :=
  ⟨fun _ => rfl, fun _ => rfl⟩

variable (reg) in
theorem copyDescriptor_name (descriptor : MetaDescriptor) :
    (copyDescriptor reg descriptor).name = descriptor.name := by
  unfold copyDescriptor
  split <;> rfl

/-- One registration adds its copy. -/
theorem metaRegister_lists (lists : reg.Lists all) (descriptor : MetaDescriptor) :
    (metaRegister reg descriptor).1.Lists (all ++ [copyDescriptor reg descriptor]) := by
  have name := copyDescriptor_name reg descriptor
  constructor
  · intro i
    rw [List.filter_append]
    show Function.update reg.table _ _ i = all.filter
      (fun descriptor => reg.idIndex descriptor.id == i) ++
      [copyDescriptor reg descriptor].filter fun descriptor => reg.idIndex descriptor.id == i
    rw [← lists.table i]
    by_cases here : reg.idIndex (copyDescriptor reg descriptor).id = i
    · subst here
      rw [Function.update_self, List.filter_cons_of_pos (by simp), List.filter_nil]
    · rw [Function.update_of_ne (Ne.symm here), List.filter_cons_of_neg (by simpa using here),
        List.filter_nil, List.append_nil]
  · intro i
    rw [List.filter_append, List.map_append]
    show Function.update reg.typeIds _ _ i = (all.filter fun descriptor =>
      reg.nameIndex descriptor.name == i).map _ ++
        ([copyDescriptor reg descriptor].filter fun descriptor =>
        reg.nameIndex descriptor.name == i).map _
    rw [← lists.typeIds i]
    by_cases here : reg.nameIndex descriptor.name = i
    · subst here
      rw [Function.update_self, List.filter_cons_of_pos (by simp [name]), List.filter_nil]
      rfl
    · rw [Function.update_of_ne (Ne.symm here), List.filter_cons_of_neg (by simpa [name] using here),
        List.filter_nil, List.map_nil, List.append_nil]

/-- **Every run of registrations** leaves the tables with what was registered. -/
theorem metaRegisterAll_lists : ∀ (descriptors : List MetaDescriptor)
    {all : List MetaDescriptor} {reg : MetaRegistry}, reg.Lists all →
      (metaRegisterAll reg descriptors).1.Lists
      (all ++ (metaRegisterAll reg descriptors).2)
  | [], all, reg, lists => by
    rw [show (metaRegisterAll reg []).2 = [] from rfl, List.append_nil]
    exact lists
  | descriptor :: rest, all, reg, lists => by
    have later := metaRegisterAll_lists rest (metaRegister_lists lists descriptor)
    rw [List.append_assoc] at later
    exact later

/-- The names are those of the types that were registered. -/
theorem metaRegisterAll_names : ∀ (descriptors : List MetaDescriptor) {reg : MetaRegistry},
    (metaRegisterAll reg descriptors).2.map (·.name) = descriptors.map (·.name)
  | [], _ => rfl
  | descriptor :: rest, reg => by
    have name : (copyDescriptor reg descriptor).name = descriptor.name :=
      copyDescriptor_name reg descriptor
    show (copyDescriptor reg descriptor).name :: ((metaRegisterAll _ rest).2.map (·.name)) = _
    rw [name, metaRegisterAll_names rest]
    rfl

/-- **The ids are not 0**, as long as the counter does not wrap. -/
theorem metaRegisterAll_ids : ∀ {descriptors : List MetaDescriptor} {reg : MetaRegistry},
    0 < reg.nextId → reg.nextId + descriptors.length < 2 ^ 64 →
      ∀ descriptor ∈ (metaRegisterAll reg descriptors).2, descriptor.id ≠ 0
  | first :: rest, reg, pos, few, descriptor, member => by
    rw [List.length_cons] at few
    have counter : (metaRegister reg first).1.nextId =
        if first.id = 0 then (reg.nextId + 1) % 2 ^ 64 else reg.nextId := rfl
    have next : 0 < (metaRegister reg first).1.nextId ∧
        (metaRegister reg first).1.nextId ≤ reg.nextId + 1 := by
      rw [counter]
      split <;> omega
    rcases List.mem_cons.mp member with rfl | member
    · unfold copyDescriptor
      split
      · exact Nat.pos_iff_ne_zero.mp pos
      · assumption
    · exact metaRegisterAll_ids next.1 (by omega) descriptor member

/-- A search among entries with distinct keys finds the entry of a key. -/
theorem find?_of_nodup {α β : Type} [BEq β] [LawfulBEq β] (key : α → β) {entry : α} :
    ∀ {entries : List α}, (entries.map key).Nodup → entry ∈ entries →
      entries.find? (fun other => key other == key entry) = some entry
  | first :: rest, distinct, member => by
    obtain ⟨new, distinct⟩ := List.nodup_cons.mp distinct
    rcases List.mem_cons.mp member with rfl | member
    · exact List.find?_cons_of_pos (by simp)
    · rw [List.find?_cons_of_neg, find?_of_nodup key distinct member]
      intro same
      exact new ((beq_iff_eq.mp same) ▸ List.mem_map_of_mem member)

/-- **A descriptor is found by its id**, where ids are distinct. -/
theorem metaGetDescriptor_of_mem (lists : reg.Lists all) (distinct : (all.map (·.id)).Nodup)
    {descriptor : MetaDescriptor} (member : descriptor ∈ all) :
    metaGetDescriptor reg descriptor.id = some descriptor := by
  have inBucket : descriptor ∈ all.filter fun other =>
      reg.idIndex other.id == reg.idIndex descriptor.id :=
    List.mem_filter.mpr ⟨member, beq_self_eq_true _⟩
  unfold metaGetDescriptor
  rw [lists.table]
  exact find?_of_nodup (fun descriptor => descriptor.id)
    (distinct.sublist (List.filter_sublist.map _)) inBucket

/-- What is found is registered under the id. -/
theorem metaGetDescriptor_some (lists : reg.Lists all) {id : Nat} {descriptor : MetaDescriptor}
    (found : metaGetDescriptor reg id = some descriptor) : descriptor ∈ all ∧ descriptor.id = id := by
  unfold metaGetDescriptor at found
  rw [lists.table] at found
  exact ⟨(List.mem_filter.mp (List.mem_of_find?_eq_some found)).1,
    by simpa using List.find?_some found⟩

/-- **An id is found by the name**, where names are distinct. -/
theorem metaGetId_of_mem (lists : reg.Lists all) (distinct : (all.map (·.name)).Nodup)
    {descriptor : MetaDescriptor} (member : descriptor ∈ all) :
    metaGetId reg descriptor.name = descriptor.id := by
  have inBucket : descriptor ∈ all.filter fun other =>
      reg.nameIndex other.name == reg.nameIndex descriptor.name :=
    List.mem_filter.mpr ⟨member, beq_self_eq_true _⟩
  have found := find?_of_nodup (fun descriptor => descriptor.name)
    (distinct.sublist (List.filter_sublist.map _)) inBucket
  unfold metaGetId
  rw [lists.typeIds, List.find?_map]
  simp only [Function.comp_def, found, Option.map_some]

end Lookups

end Vaudou
