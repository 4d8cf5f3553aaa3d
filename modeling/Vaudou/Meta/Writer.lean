/-
**The JSON writer of `vd_meta.h`.**

Every procedure returns its code and the bytes that it pushes to the buffer. The procedures call each
other through the type descriptors; `writeJsonDescriptor` carries the fuel of that recursion, and hands
itself to the others. `none` is undefined behaviour (a string that is null, a missing descriptor whose
size is read), or a recursion that the fuel does not reach the end of.

`pretty` is the indentation, and -1 for the minified text. What `printf` and `strtof` make of floating
point numbers is the parameter `CFloat`.
-/

import Vaudou.Foundation.CString
import Vaudou.Meta.Registry

namespace Vaudou

open Vaudou.Memory Vaudou.Text

/-- `"%f"` at a `float` and at a `double`, and `strtof` and `strtod`, on the bytes of the number. -/
structure CFloat where
  printFloat : Nat → List UInt8
  printDouble : Nat → List UInt8
  strtof : List UInt8 → Nat × List UInt8
  strtod : List UInt8 → Nat × List UInt8

/-- `VD_META_DESCRIPTOR_NOT_FOUND`. -/
def metaDescriptorNotFound : Int := -1

/-- A double quote. -/
def quoted (bytes : List UInt8) : List UInt8 := charByte '"' :: (bytes ++ [charByte '"'])

/-- The key of the type name. -/
def typeNameKey : List UInt8 := ascii "--vd-meta-type-name--"

/-- `for (int i = 0; i < pretty; ++i) pushchar(' ')`. -/
def spaces (pretty : Int) : List UInt8 := List.replicate pretty.toNat (charByte ' ')

/-- `if (pretty >= 0)`. -/
def ifPretty (pretty : Int) (bytes : List UInt8) : List UInt8 := if 0 ≤ pretty then bytes else []

/-- `if (pretty >= 0) pretty += 4`. -/
def deeper (pretty : Int) : Int := if 0 ≤ pretty then pretty + 4 else pretty

/-- What `snprintf` leaves of a text in `char str[32]`. -/
def snprintf32 (text : List UInt8) : List UInt8 := text.take 31

/-- `vd_meta__buffer_pushstr` of a string in memory. -/
def pushCString (mem : Mem) (p : Nat) : Option (List UInt8) :=
  if p = 0 then none else (strlen mem p).map (mem.load p)

/-- The value of a primitive type at `object`. -/
def primitiveText (floats : CFloat) (mem : Mem) (object : Nat) : MetaPrimitiveType → List UInt8
  | .i8 => snprintf32 (decimalInt (mem.readInt object 1))
  | .u8 => snprintf32 (decimal (mem.readNat object 1))
  | .i16 => snprintf32 (decimalInt (mem.readInt object 2))
  | .u16 => snprintf32 (decimal (mem.readNat object 2))
  | .i32 => snprintf32 (decimalInt (mem.readInt object 4))
  | .u32 => snprintf32 (decimal (mem.readNat object 4))
  | .i64 => snprintf32 (decimalInt (mem.readInt object 8))
  | .u64 => snprintf32 (decimal (mem.readNat object 8))
  | .f32 => snprintf32 (floats.printFloat (mem.readNat object 4))
  | .f64 => snprintf32 (floats.printDouble (mem.readNat object 8))
  | .char8 => quoted [mem object]

/-- A procedure that writes the value of a type at an address. -/
abbrev WriteProc := (object type : Nat) → (pretty : Int) → Option (Int × List UInt8)

section Writers

variable (reg : MetaRegistry) (mem : Mem) (write : WriteProc)

/-- The elements of an array at `base`, the last without a comma behind it. -/
def writeElements (base size type len : Nat) (pretty : Int) : Option (List UInt8) :=
  ((List.range len).mapM fun i => (write (base + i * size) type pretty).map fun value =>
    spaces pretty ++ value.2 ++ (if i < len - 1 then ascii "," else []) ++
      ifPretty pretty (ascii "\n")).map List.flatten

/-- An array with its brackets. The size of an element is read for every element. -/
def writeArray (base type len : Nat) (pretty : Int) : Option (List UInt8) :=
  let descriptor := metaGetDescriptor reg type
  if 0 < len ∧ descriptor = none then none
  else
    (writeElements write base (descriptor.elim 0 (·.size)) type len (deeper pretty)).map
      fun elements =>
        ifPretty pretty (ascii "\n") ++ spaces pretty ++ ascii "[" ++ ifPretty pretty (ascii "\n") ++
          elements ++ spaces pretty ++ ascii "]"

/-- `vd_meta__write_json_field`. -/
def writeJsonField (object : Nat) (field : MetaField) (pretty : Int) : Option (Int × List UInt8) :=
  if field.isFixedArray then
    (writeArray reg write (object + field.offset) field.type field.fixedArrayLen pretty).map (0, ·)
  else if field.isIntrusiveArray then
    let array := mem.readNat (object + field.offset) 8
    (writeArray reg write array field.type (reg.props.len mem array) pretty).map (0, ·)
  else (write (object + field.offset) field.type pretty).map fun value => (0, value.2)

/-- The members of an object, the last without a comma behind it. -/
def writeFields (object : Nat) (pretty : Int) : List MetaField → Option (List UInt8)
  | [] => some []
  | field :: rest => do
    let value ← writeJsonField reg mem write object field pretty
    let later ← writeFields object pretty rest
    some (spaces pretty ++ quoted field.name ++ ascii ":" ++ ifPretty pretty (ascii " ") ++ value.2 ++
      (if rest.isEmpty then [] else ascii ",") ++ ifPretty pretty (ascii "\n") ++ later)

/-- `vd_meta__write_json_object`. -/
def writeJsonObject (object type : Nat) (pretty : Int) : Option (Int × List UInt8) :=
  match metaGetDescriptor reg type with
  | none => some (metaDescriptorNotFound, [])
  | some descriptor =>
    (writeFields reg mem write object (deeper pretty) descriptor.fields).map fun fields =>
      (0, ascii "\x7b" ++ ifPretty pretty (ascii "\n") ++ spaces (deeper pretty) ++
        quoted typeNameKey ++ ascii ":" ++ ifPretty pretty (ascii " ") ++ quoted descriptor.name ++
        ascii "," ++ ifPretty pretty (ascii "\n") ++ fields ++ spaces pretty ++ ascii "\x7d")

end Writers

/-- `vd_meta__write_json_descriptor`. -/
def writeJsonDescriptor (floats : CFloat) (reg : MetaRegistry) (mem : Mem) :
    (fuel : Nat) → WriteProc
  | 0, _, _, _ => none
  | fuel + 1, object, type, pretty =>
    match metaGetDescriptor reg type with
    | none => some (metaDescriptorNotFound, [])
    | some descriptor =>
      match descriptor.typeClass with
      | .string =>
        match descriptor.string with
        | .cstring => (pushCString mem (mem.readNat object 8)).map fun content => (0, quoted content)
        | .slice => some (0, [])
      | .primitive => some (0, primitiveText floats mem object descriptor.primitive)
      | .object =>
        (writeJsonObject reg mem (writeJsonDescriptor floats reg mem fuel) object type pretty).map
          fun value => (0, value.2)
      | .array => some (0, [])

/-- `vd_meta_write_json`: the code and the text; its length is the one that is returned. -/
def metaWriteJson (floats : CFloat) (fuel : Nat) (reg : MetaRegistry) (mem : Mem)
    (object type : Nat) (pretty : Int) : Option (Int × List UInt8) :=
  (writeJsonObject reg mem (writeJsonDescriptor floats reg mem fuel) object type pretty).map
    fun value => (0, value.2)

/-! ### The fuel -/

/-- Where the first procedure has a result, the second has the same. -/
def WriteProc.Extends (write write' : WriteProc) : Prop :=
  ∀ {object type pretty value}, write object type pretty = some value →
    write' object type pretty = some value

section Fuel

variable {floats : CFloat} {reg : MetaRegistry} {mem : Mem} {write write' : WriteProc}
  {object type : Nat} {pretty : Int}

theorem writeElements_extends (more : write.Extends write') {base size len : Nat}
    {elements : List UInt8} (wrote : writeElements write base size type len pretty = some elements) :
    writeElements write' base size type len pretty = some elements := by
  have all : ∀ {indices : List Nat} {texts : List (List UInt8)},
      (indices.mapM fun i => (write (base + i * size) type pretty).map fun value =>
        spaces pretty ++ value.2 ++ (if i < len - 1 then ascii "," else []) ++
          ifPretty pretty (ascii "\n")) = some texts →
      (indices.mapM fun i => (write' (base + i * size) type pretty).map fun value =>
        spaces pretty ++ value.2 ++ (if i < len - 1 then ascii "," else []) ++
          ifPretty pretty (ascii "\n")) = some texts := by
    intro indices
    induction indices with
    | nil => exact id
    | cons i indices ih =>
      intro texts wrote
      simp only [List.mapM_cons, Option.bind_eq_bind, Option.bind_eq_some_iff,
        Option.map_eq_some_iff] at wrote ⊢
      obtain ⟨text, ⟨value, first, same⟩, later, laterWrote, whole⟩ := wrote
      exact ⟨text, ⟨value, more first, same⟩, later, ih laterWrote, whole⟩
  obtain ⟨texts, wrote, flat⟩ := Option.map_eq_some_iff.mp wrote
  exact Option.map_eq_some_iff.mpr ⟨texts, all wrote, flat⟩

theorem writeArray_extends (more : write.Extends write') {base len : Nat} {text : List UInt8}
    (wrote : writeArray reg write base type len pretty = some text) :
    writeArray reg write' base type len pretty = some text := by
  unfold writeArray at wrote ⊢
  simp only at wrote ⊢
  split at wrote
  · cases wrote
  · next described =>
    rw [if_neg described]
    obtain ⟨elements, wrote, whole⟩ := Option.map_eq_some_iff.mp wrote
    exact Option.map_eq_some_iff.mpr ⟨elements, writeElements_extends more wrote, whole⟩

theorem writeJsonField_extends (more : write.Extends write') {field : MetaField}
    {value : Int × List UInt8} (wrote : writeJsonField reg mem write object field pretty = some value) :
    writeJsonField reg mem write' object field pretty = some value := by
  unfold writeJsonField at wrote ⊢
  by_cases fixed : field.isFixedArray = true
  · rw [if_pos fixed] at wrote ⊢
    obtain ⟨text, wrote, whole⟩ := Option.map_eq_some_iff.mp wrote
    exact Option.map_eq_some_iff.mpr ⟨text, writeArray_extends more wrote, whole⟩
  · rw [if_neg fixed] at wrote ⊢
    by_cases intrusive : field.isIntrusiveArray = true
    · rw [if_pos intrusive] at wrote ⊢
      obtain ⟨text, wrote, whole⟩ := Option.map_eq_some_iff.mp wrote
      exact Option.map_eq_some_iff.mpr ⟨text, writeArray_extends more wrote, whole⟩
    · rw [if_neg intrusive] at wrote ⊢
      obtain ⟨inner, wrote, whole⟩ := Option.map_eq_some_iff.mp wrote
      exact Option.map_eq_some_iff.mpr ⟨inner, more wrote, whole⟩

theorem writeFields_extends (more : write.Extends write') : ∀ {fields : List MetaField}
    {text : List UInt8}, writeFields reg mem write object pretty fields = some text →
      writeFields reg mem write' object pretty fields = some text
  | [], _, wrote => wrote
  | field :: rest, text, wrote => by
    simp only [writeFields, Option.bind_eq_bind, Option.bind_eq_some_iff] at wrote ⊢
    obtain ⟨value, wroteField, later, wroteLater, whole⟩ := wrote
    exact ⟨value, writeJsonField_extends more wroteField, later,
      writeFields_extends more wroteLater, whole⟩

theorem writeJsonObject_extends (more : write.Extends write') {value : Int × List UInt8}
    (wrote : writeJsonObject reg mem write object type pretty = some value) :
    writeJsonObject reg mem write' object type pretty = some value := by
  unfold writeJsonObject at wrote ⊢
  split at wrote
  · exact wrote
  · obtain ⟨text, wrote, whole⟩ := Option.map_eq_some_iff.mp wrote
    exact Option.map_eq_some_iff.mpr ⟨text, writeFields_extends more wrote, whole⟩

/-- **One more unit of fuel** changes no result. -/
theorem writeJsonDescriptor_extends : ∀ {fuel : Nat},
    (writeJsonDescriptor floats reg mem fuel).Extends (writeJsonDescriptor floats reg mem (fuel + 1))
  | 0, _, _, _, _, wrote => nomatch wrote
  | fuel + 1, object, type, pretty, value, wrote => by
    rw [writeJsonDescriptor] at wrote ⊢
    cases found : metaGetDescriptor reg type with
    | none =>
      rw [found] at wrote
      exact wrote
    | some descriptor =>
      rw [found] at wrote
      simp only at wrote ⊢
      cases kind : descriptor.typeClass <;> rw [kind] at wrote
      case object =>
        obtain ⟨inner, wrote, whole⟩ := Option.map_eq_some_iff.mp wrote
        exact Option.map_eq_some_iff.mpr
          ⟨inner, writeJsonObject_extends writeJsonDescriptor_extends wrote, whole⟩
      all_goals exact wrote

/-- **More fuel changes no text.** -/
theorem metaWriteJson_mono {fuel fuel' : Nat} (more : fuel ≤ fuel') {value : Int × List UInt8}
    (wrote : metaWriteJson floats fuel reg mem object type pretty = some value) :
    metaWriteJson floats fuel' reg mem object type pretty = some value := by
  induction more with
  | refl => exact wrote
  | step _ ih =>
    obtain ⟨inner, wrote, whole⟩ := Option.map_eq_some_iff.mp ih
    exact Option.map_eq_some_iff.mpr
      ⟨inner, writeJsonObject_extends writeJsonDescriptor_extends wrote, whole⟩

end Fuel

end Vaudou
