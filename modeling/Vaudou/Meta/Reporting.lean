/-
**What the JSON writer reports.**

`vd_meta_write_json` returns 0 whatever the procedures below it return. `Reports` is what the code stands
for: behind 0 the text is a well-formed object that declares every field, and where a type is not registered
the code is not 0. `WritableFields` says what an object must be for that: at every depth there are fields,
their types are registered and have JSON values, strings can be read, and no number is cut behind its point.

* `fields_written` — such an object is written, as a tree.
* `fields_outcome` — where any other object is written, a type is not registered, or the text is refused
  by the places of a JSON text.
* `metaWriteJson_reports_iff` — the writer reports exactly for such objects.
-/

import Vaudou.Meta.Declared
import Vaudou.Meta.Places

namespace Vaudou

open Vaudou.Memory Vaudou.Text

/-! ### Objects that are written -/

/-- Where the values of a field are. -/
def fieldParts (reg : MetaRegistry) (mem : Mem) (object : Nat) (field : MetaField) : List Nat :=
  let size := (metaGetDescriptor reg field.type).elim 0 (·.size)
  if field.isFixedArray then
    (List.range field.fixedArrayLen).map fun i => object + field.offset + i * size
  else if field.isIntrusiveArray then
    let array := mem.readNat (object + field.offset) 8
    (List.range (reg.props.len mem array)).map fun i => array + i * size
  else [object + field.offset]

/-- The only element of an array, of a type without a value. -/
def PassedOver (reg : MetaRegistry) (mem : Mem) (object : Nat) (field : MetaField) : Prop :=
  field.isArray = true ∧ (fieldParts reg mem object field).length ≤ 1 ∧
    ∃ type, metaGetDescriptor reg field.type = some type ∧ type.Valueless

/-- The text of a floating point number is cut right behind its point. -/
def CutFloat (floats : CFloat) (mem : Mem) (object : Nat) : MetaPrimitiveType → Prop
  | .f32 => (floats.printFloat (mem.readNat object 4))[30]? = some (charByte '.')
  | .f64 => (floats.printDouble (mem.readNat object 8))[30]? = some (charByte '.')
  | _ => False

/-- A value has a JSON text, as far as it is no object. -/
def LeafWritable (floats : CFloat) (mem : Mem) (descriptor : MetaDescriptor) (object : Nat) : Prop :=
  match descriptor.typeClass with
  | .primitive => ¬ CutFloat floats mem object descriptor.primitive
  | .string => descriptor.string = .cstring ∧ (pushCString mem (mem.readNat object 8)).isSome = true
  | .array => False
  | .object => True

/-- **An object that can be written**, given by its fields. -/
inductive WritableFields (floats : CFloat) (reg : MetaRegistry) (mem : Mem) :
    (fields : List MetaField) → (object : Nat) → Prop where
  | intro {fields object} (some_ : fields ≠ [])
      (registered : ∀ field ∈ fields, (metaGetDescriptor reg field.type).isSome = true)
      (leaves : ∀ field ∈ fields, ¬ PassedOver reg mem object field →
        ∀ a ∈ fieldParts reg mem object field, ∀ type, metaGetDescriptor reg field.type = some type →
          LeafWritable floats mem type a)
      (objects : ∀ field ∈ fields, ∀ a ∈ fieldParts reg mem object field, ∀ type,
        metaGetDescriptor reg field.type = some type → type.typeClass = .object →
          WritableFields floats reg mem type.fields a) : WritableFields floats reg mem fields object

/-- **A type is not registered** in a field of the object, or of an object in it. -/
inductive MissesType (reg : MetaRegistry) (mem : Mem) : (fields : List MetaField) → (object : Nat) → Prop where
  | field {fields object field} (member : field ∈ fields)
      (missing : metaGetDescriptor reg field.type = none) : MissesType reg mem fields object
  | part {fields object field a type} (member : field ∈ fields) (at_ : a ∈ fieldParts reg mem object field)
      (found : metaGetDescriptor reg field.type = some type) (kind : type.typeClass = .object)
      (later : MissesType reg mem type.fields a) : MissesType reg mem fields object

/-- A value in the object, at any depth. -/
inductive MetPart (reg : MetaRegistry) (mem : Mem) :
    (fields : List MetaField) → (object : Nat) → MetaDescriptor → Nat → Prop where
  | here {fields object field a type} (member : field ∈ fields)
      (at_ : a ∈ fieldParts reg mem object field)
      (found : metaGetDescriptor reg field.type = some type) : MetPart reg mem fields object type a
  | deeper {fields object field a type type' a'} (member : field ∈ fields)
      (at_ : a ∈ fieldParts reg mem object field)
      (found : metaGetDescriptor reg field.type = some type) (kind : type.typeClass = .object)
      (later : MetPart reg mem type.fields a type' a') : MetPart reg mem fields object type' a'

/-- The bits of a `float` that is finite. -/
def FiniteFloat (bits : Nat) : Prop := bits / 2 ^ 23 % 2 ^ 8 ≠ 2 ^ 8 - 1

/-- The bits of a `double` that is finite. -/
def FiniteDouble (bits : Nat) : Prop := bits / 2 ^ 52 % 2 ^ 11 ≠ 2 ^ 11 - 1

/-- A string or character that is written as it is, or a number that is finite. -/
def CleanLeaf (mem : Mem) (descriptor : MetaDescriptor) (object : Nat) : Prop :=
  match descriptor.typeClass with
  | .primitive =>
    match descriptor.primitive with
    | .char8 => CleanContent [mem object]
    | .f32 => FiniteFloat (mem.readNat object 4)
    | .f64 => FiniteDouble (mem.readNat object 8)
    | _ => True
  | .string => ∀ content, pushCString mem (mem.readNat object 8) = some content → CleanContent content
  | _ => True

/-- **The strings of an object are without quotes, backslashes and control characters**, and its floats
are finite. -/
def CleanObject (reg : MetaRegistry) (mem : Mem) (fields : List MetaField) (object : Nat) : Prop :=
  ∀ type a, MetPart reg mem fields object type a → CleanLeaf mem type a

/-- The names of types and fields are without them. -/
def CleanNames (reg : MetaRegistry) : Prop :=
  ∀ id descriptor, metaGetDescriptor reg id = some descriptor →
    CleanContent descriptor.name ∧ ∀ field ∈ descriptor.fields, CleanContent field.name

/-- `"%f"` of a finite number: a sign, a whole part without leading zeros, a point and six digits. -/
def FixedText (text : List UInt8) : Prop :=
  ∃ sign whole digits, text = sign ++ (whole ++ charByte '.' :: digits) ∧
    (sign = [] ∨ sign = ascii "-") ∧
    (whole ≠ [] ∧ (∀ c ∈ whole, isDigit c = true) ∧
      (whole.head? = some (charByte '0') → whole.length = 1)) ∧
    digits.length = 6 ∧ ∀ c ∈ digits, isDigit c = true

/-- `printf` writes finite numbers in that way. -/
structure CFloat.PrintsFixed (floats : CFloat) : Prop where
  float : ∀ bits, FiniteFloat bits → FixedText (floats.printFloat bits)
  double : ∀ bits, FiniteDouble bits → FixedText (floats.printDouble bits)

/-- **A well-formed JSON object for the type**, with every field of it and of the objects in it. -/
def WellFormedFor (reg : MetaRegistry) (type : Nat) (text : List UInt8) : Prop :=
  ∃ (descriptor : MetaDescriptor) (value : Json), metaGetDescriptor reg type = some descriptor ∧
    text = value.textThen [] ∧ value.IsObject ∧ value.Standard ∧ value.Declares reg descriptor

/-- A type is not registered: the type itself, or that of a field at any depth. -/
def Unregistered (reg : MetaRegistry) (mem : Mem) (object type : Nat) : Prop :=
  metaGetDescriptor reg type = none ∨ ∃ descriptor, metaGetDescriptor reg type = some descriptor ∧
    MissesType reg mem descriptor.fields object

/-- **The writer returns and reports**: behind the code 0 the text is well-formed, and a type that is not
registered gives another code. -/
def Reports (floats : CFloat) (reg : MetaRegistry) (mem : Mem) (object type : Nat) (pretty : Int) : Prop :=
  ∃ fuel code text, metaWriteJson floats fuel reg mem object type pretty = some (code, text) ∧
    (code = 0 → WellFormedFor reg type text) ∧ (Unregistered reg mem object type → code ≠ 0)

/-! ### Texts from entries -/

section Entries

variable {floats : CFloat} {reg : MetaRegistry} {mem : Mem} {write : WriteProc} {object type : Nat}
  {pretty : Int} {text : List UInt8}

/-- The procedure writes these values at these addresses. -/
def WriteProc.WritesEntries (write : WriteProc) (type : Nat) (pretty : Int)
    (entries : List (Nat × List UInt8)) : Prop :=
  ∀ entry ∈ entries, (write entry.1 type pretty).map Prod.snd = some entry.2

/-- The values of elements that are `size` bytes apart. -/
theorem writesAll_entries {base size len : Nat} {entries : List (Nat × List UInt8)}
    (places : entries.map Prod.fst = (List.range len).map fun i => base + i * size) :
    write.WritesAll base size type pretty (entries.map Prod.snd) ↔ write.WritesEntries type pretty entries := by
  have place : ∀ i (inside : i < entries.length), entries[i].1 = base + i * size := by
    intro i inside
    have here := congrArg (fun places => places[i]?) places
    simp only [List.getElem?_map, List.getElem?_eq_getElem inside, Option.map_some] at here
    obtain ⟨j, found, same⟩ := Option.map_eq_some_iff.mp here.symm
    obtain ⟨_, rfl⟩ := List.getElem?_eq_some_iff.mp found
    rw [← same, List.getElem_range]
  constructor
  · intro all entry member
    obtain ⟨i, inside, rfl⟩ := List.getElem_of_mem member
    rw [place i inside]
    exact all i _ (by rw [List.getElem?_map, List.getElem?_eq_getElem inside]; rfl)
  · intro each i value found
    rw [List.getElem?_map, Option.map_eq_some_iff] at found
    obtain ⟨entry, found, rfl⟩ := found
    obtain ⟨inside, rfl⟩ := List.getElem?_eq_some_iff.mp found
    rw [← place i inside]
    exact each _ (List.getElem_mem inside)

/-- **A field that is an array** is written as the text of its values. -/
theorem writeJsonField_array {field : MetaField} {descriptor : MetaDescriptor} (array : field.isArray = true)
    (found : metaGetDescriptor reg field.type = some descriptor) :
    (writeJsonField reg mem write object field pretty).map Prod.snd = some text ↔
      ∃ entries, entries.map Prod.fst = fieldParts reg mem object field ∧
        write.WritesEntries field.type (deeper pretty) entries ∧
          text = arrayText pretty (entries.map Prod.snd) := by
  obtain ⟨base, len, parts, same⟩ : ∃ base len, fieldParts reg mem object field =
      (List.range len).map (fun i => base + i * descriptor.size) ∧
        writeJsonField reg mem write object field pretty =
          (writeArray reg write base field.type len pretty).map (0, ·) := by
    unfold fieldParts writeJsonField
    rw [found]
    by_cases fixed : field.isFixedArray = true
    · rw [if_pos fixed, if_pos fixed]
      exact ⟨_, _, rfl, rfl⟩
    · have intrusive : field.isIntrusiveArray = true := by
        rw [MetaField.isArray, Bool.or_eq_true] at array
        exact array.resolve_left fixed
      rw [if_neg fixed, if_neg fixed, if_pos intrusive, if_pos intrusive]
      exact ⟨_, _, rfl, rfl⟩
  have inner : (writeJsonField reg mem write object field pretty).map Prod.snd =
      writeArray reg write base field.type len pretty := by
    rw [same, Option.map_map]
    exact Option.map_id'
  rw [inner, parts]
  constructor
  · intro wrote
    obtain ⟨values, rfl, rfl, all⟩ := writeArray_values found wrote
    let places := (List.range values.length).map fun i => base + i * descriptor.size
    have count : places.length = values.length := by rw [List.length_map, List.length_range]
    have firsts : (places.zip values).map Prod.fst = places := List.map_fst_zip count.le
    have seconds : (places.zip values).map Prod.snd = values := List.map_snd_zip count.ge
    refine ⟨_, firsts, (writesAll_entries firsts).mp ?_, ?_⟩ <;> rw [seconds]
    exact all
  · rintro ⟨entries, places, each, rfl⟩
    have count : (entries.map Prod.snd).length = len := by
      have := congrArg List.length places
      rwa [List.length_map, List.length_map, List.length_range, ← List.length_map (f := Prod.snd)] at this
    rw [← count]
    exact writeArray_text found ((writesAll_entries places).mpr each)

/-- A field that is no array is written as its value. -/
theorem writeJsonField_single (write : WriteProc) (object : Nat) (pretty : Int) {field : MetaField}
    (single : field.isArray = false) :
    (writeJsonField reg mem write object field pretty).map Prod.snd =
        (write (object + field.offset) field.type pretty).map Prod.snd ∧
      fieldParts reg mem object field = [object + field.offset] := by
  obtain ⟨fixed, intrusive⟩ := Bool.or_eq_false_iff.mp single
  unfold writeJsonField fieldParts
  rw [fixed, intrusive]
  refine ⟨?_, rfl⟩
  show Option.map Prod.snd (Option.map _ _) = _
  rw [Option.map_map]
  rfl

/-- The fields are written as the text of their values. -/
theorem writeFields_text : ∀ {entries : List (MetaField × List UInt8)},
    (∀ entry ∈ entries, (writeJsonField reg mem write object entry.1 pretty).map Prod.snd = some entry.2) →
      writeFields reg mem write object pretty (entries.map Prod.fst) = some (fieldsText pretty entries)
  | [], _ => rfl
  | (field, text) :: rest, wrote => by
    obtain ⟨value, first, rfl⟩ := Option.map_eq_some_iff.mp (wrote _ List.mem_cons_self)
    have later := writeFields_text fun entry member => wrote entry (List.mem_cons_of_mem _ member)
    have ends : (rest.map Prod.fst).isEmpty = rest.isEmpty := List.isEmpty_map
    rw [List.map_cons, writeFields, first, later, fieldsText, ends]
    rfl

theorem writeFields_entries : ∀ {fields : List MetaField} {text : List UInt8},
    writeFields reg mem write object pretty fields = some text →
      ∃ entries, entries.map Prod.fst = fields ∧ text = fieldsText pretty entries ∧
        ∀ entry ∈ entries, (writeJsonField reg mem write object entry.1 pretty).map Prod.snd = some entry.2
  | [], text, wrote => by
    cases wrote
    exact ⟨[], rfl, rfl, fun entry member => absurd member List.not_mem_nil⟩
  | field :: rest, text, wrote => by
    simp only [writeFields, Option.bind_eq_bind, Option.bind_eq_some_iff] at wrote
    obtain ⟨value, first, later, wroteLater, whole⟩ := wrote
    obtain ⟨entries, rfl, rfl, each⟩ := writeFields_entries wroteLater
    refine ⟨(field, value.2) :: entries, rfl, ?_, fun entry member => ?_⟩
    · rw [fieldsText, ← Option.some.inj whole, List.isEmpty_map]
    · rcases List.mem_cons.mp member with rfl | member
      · rw [first]
        rfl
      · exact each entry member

/-- An object is written as the text of its fields. -/
theorem writeJsonObject_text {descriptor : MetaDescriptor} (found : metaGetDescriptor reg type = some descriptor) :
    writeJsonObject reg mem write object type pretty =
      (writeFields reg mem write object (deeper pretty) descriptor.fields).map fun fields =>
        (0, objectFields pretty descriptor.name fields) := by
  rw [writeJsonObject, found]
  rfl

/-- A field is written in the same way with more fuel. -/
theorem writeJsonField_mono {fuel fuel' : Nat} {field : MetaField} (more : fuel ≤ fuel')
    (wrote : (writeJsonField reg mem (writeJsonDescriptor floats reg mem fuel) object field pretty).map Prod.snd =
      some text) :
    (writeJsonField reg mem (writeJsonDescriptor floats reg mem fuel') object field pretty).map Prod.snd =
      some text := by
  induction more with
  | refl => exact wrote
  | step _ ih =>
    obtain ⟨value, wrote, same⟩ := Option.map_eq_some_iff.mp ih
    exact Option.map_eq_some_iff.mpr ⟨value, writeJsonField_more wrote, same⟩

end Entries

/-! ### Leaves -/

section Leaves

variable {floats : CFloat} {reg : MetaRegistry} {mem : Mem} {descriptor : MetaDescriptor}
  {object type : Nat} {pretty : Int} {text : List UInt8}

theorem isDigit_ne_point {c : UInt8} (digit : isDigit c = true) : c ≠ charByte '.' := by
  rintro rfl
  exact absurd digit (by decide)

/-- **A floating point number in `char str[32]`** is a number, unless its point is the last byte. -/
theorem FixedText.cut (fixed : FixedText text) :
    (text[30]? = some (charByte '.') → ∀ place : JsonPlace, place.Outside →
      placeBehind place (snprintf32 text) = .point) ∧
    (text[30]? ≠ some (charByte '.') → JsonNumber (snprintf32 text)) := by
  obtain ⟨sign, whole, digits, rfl, signed, ⟨some_, wholeDigits, leading⟩, six, fractionDigits⟩ := fixed
  have short : sign.length ≤ 1 := by
    rcases signed with rfl | rfl <;> decide
  have front : ∀ c ∈ sign ++ whole, isPlainScalar c = true := by
    intro c member
    rcases List.mem_append.mp member with inSign | inWhole
    · exact isPlainScalar_sign (signed.elim Or.inl fun minus => Or.inr (Or.inl minus)) c inSign
    · exact isPlainScalar_digit (wholeDigits c inWhole)
  have nonpoint : ∀ c ∈ sign ++ whole, c ≠ charByte '.' := by
    intro c member
    have plain := front c member
    rw [isPlainScalar, Bool.and_eq_true, bne_iff_ne] at plain
    exact plain.2
  have frontSome : sign ++ whole ≠ [] := List.append_ne_nil_of_right_ne_nil sign some_
  unfold snprintf32
  rw [← List.append_assoc]
  have length : (sign ++ whole).length = sign.length + whole.length := List.length_append
  have wholePos := List.length_pos_iff.mpr some_
  constructor
  · intro point place outside
    -- the point is in no other place than behind the whole part
    have thirty : (sign ++ whole).length = 30 := by
      rcases Nat.lt_trichotomy (sign ++ whole).length 30 with less | same | more
      · rw [List.getElem?_append_right (by omega)] at point
        obtain ⟨later, split⟩ : ∃ k, 30 - (sign ++ whole).length = k + 1 := ⟨29 - (sign ++ whole).length, by omega⟩
        rw [split, List.getElem?_cons_succ] at point
        exact absurd rfl (isDigit_ne_point (fractionDigits _ (List.mem_of_getElem? point)))
      · exact same
      · rw [List.getElem?_append_left (by omega)] at point
        exact absurd rfl (nonpoint _ (List.mem_of_getElem? point))
    have cut : ((sign ++ whole) ++ charByte '.' :: digits).take 31 = (sign ++ whole) ++ [charByte '.'] := by
      rw [List.take_append, thirty, List.take_of_length_le (by omega)]
      rfl
    rw [cut, outside.word frontSome front]
    rfl
  · intro noPoint
    rcases Nat.lt_trichotomy (sign ++ whole).length 30 with less | same | more
    · refine ⟨sign, whole, charByte '.' :: digits.take (30 - (sign ++ whole).length), [], ?_, signed,
        ⟨some_, wholeDigits, leading⟩, Or.inr ⟨_, rfl, ?_, fun c member =>
          fractionDigits c (List.mem_of_mem_take member)⟩, Or.inl rfl⟩
      · obtain ⟨k, split⟩ : ∃ k, 31 - (sign ++ whole).length = k + 1 := ⟨30 - (sign ++ whole).length, by omega⟩
        have same : 30 - (sign ++ whole).length = k := by omega
        rw [List.take_append, List.take_of_length_le (by omega), split, List.take_succ_cons, same,
          List.append_nil, List.append_assoc]
      · rw [ne_eq, List.take_eq_nil_iff, not_or]
        refine ⟨by omega, ?_⟩
        rintro rfl
        cases six
    · rw [List.getElem?_append_right (by omega), same] at noPoint
      exact absurd rfl noPoint
    · refine ⟨sign, whole.take (31 - sign.length), [], [], ?_, signed,
        ⟨?_, fun c member => wholeDigits c (List.mem_of_mem_take member), fun zero => ?_⟩, Or.inl rfl,
        Or.inl rfl⟩
      · rw [List.take_append_of_le_length (by omega), List.take_append,
          List.take_of_length_le (by omega), List.append_nil, List.append_nil]
      · rw [ne_eq, List.take_eq_nil_iff, not_or]
        exact ⟨by omega, some_⟩
      · rw [List.head?_take, if_neg (by omega)] at zero
        have one := leading zero
        omega

/-- The text of a primitive value is a tree, unless it is cut behind its point. -/
theorem primitiveText_tree (prints : floats.PrintsFixed) (kind : descriptor.typeClass = .primitive)
    (clean : CleanLeaf mem descriptor object) (uncut : ¬ CutFloat floats mem object descriptor.primitive) :
    TreeOf reg descriptor (primitiveText floats mem object descriptor.primitive) := by
  have leaf : descriptor.typeClass ≠ .object := by
    rw [kind]
    decide
  have small : ∀ width ≤ 8, (256 : Nat) ^ width ≤ 2 ^ 64 := fun width le =>
    (Nat.pow_le_pow_right (by norm_num) le).trans (by norm_num)
  have int : ∀ width ≤ 8, TreeOf reg descriptor (snprintf32 (decimalInt (mem.readInt object width))) := by
    intro width le
    have range := readInt_range mem object width
    have bound := small width le
    rw [snprintf32_decimalInt (by omega)]
    exact (decimalInt_number _).treeOf leaf
  have nat : ∀ width ≤ 8, TreeOf reg descriptor (snprintf32 (decimal (mem.readNat object width))) := by
    intro width le
    rw [snprintf32_decimal (lt_of_lt_of_le (readNat_lt mem object width) (small width le))]
    exact (decimal_number _).treeOf leaf
  unfold CleanLeaf at clean
  rw [kind] at clean
  cases which : descriptor.primitive with
  | i8 => exact int 1 (by norm_num)
  | u8 => exact nat 1 (by norm_num)
  | i16 => exact int 2 (by norm_num)
  | u16 => exact nat 2 (by norm_num)
  | i32 => exact int 4 (by norm_num)
  | u32 => exact nat 4 (by norm_num)
  | i64 => exact int 8 (by norm_num)
  | u64 => exact nat 8 (by norm_num)
  | f32 =>
    rw [which] at clean uncut
    exact ((prints.float _ clean).cut.2 uncut).treeOf leaf
  | f64 =>
    rw [which] at clean uncut
    exact ((prints.double _ clean).cut.2 uncut).treeOf leaf
  | char8 =>
    rw [which] at clean
    exact treeOf_string leaf clean

/-- A number that is cut behind its point is no value. -/
theorem primitiveText_cut (prints : floats.PrintsFixed) (kind : descriptor.typeClass = .primitive)
    (clean : CleanLeaf mem descriptor object) (cut : CutFloat floats mem object descriptor.primitive)
    {place : JsonPlace} (outside : place.Outside) :
    placeBehind place (primitiveText floats mem object descriptor.primitive) = .point := by
  unfold CleanLeaf at clean
  rw [kind] at clean
  cases which : descriptor.primitive <;> rw [which] at cut clean
  case f32 => exact (prints.float _ clean).cut.1 cut place outside
  case f64 => exact (prints.double _ clean).cut.1 cut place outside
  all_goals exact cut.elim

/-- **A leaf that is written.** -/
theorem leaf_written (prints : floats.PrintsFixed) (found : metaGetDescriptor reg type = some descriptor)
    (kind : descriptor.typeClass ≠ .object) (writable : LeafWritable floats mem descriptor object)
    (clean : CleanLeaf mem descriptor object) (pretty : Int) : ∃ text, TreeOf reg descriptor text ∧
      ∀ fuel, 1 ≤ fuel → (writeJsonDescriptor floats reg mem fuel object type pretty).map Prod.snd = some text := by
  unfold LeafWritable at writable
  cases class_ : descriptor.typeClass with
  | object => exact absurd class_ kind
  | array =>
    rw [class_] at writable
    exact writable.elim
  | primitive =>
    rw [class_] at writable
    refine ⟨_, primitiveText_tree prints class_ clean writable, fun fuel some_ => ?_⟩
    obtain ⟨fuel, rfl⟩ := Nat.exists_eq_add_of_le' some_
    rw [writeJsonDescriptor, found]
    simp only [class_, Option.map_some]
  | string =>
    rw [class_] at writable
    obtain ⟨content, read⟩ := Option.isSome_iff_exists.mp writable.2
    unfold CleanLeaf at clean
    rw [class_] at clean
    refine ⟨_, treeOf_string kind (clean content read), fun fuel some_ => ?_⟩
    obtain ⟨fuel, rfl⟩ := Nat.exists_eq_add_of_le' some_
    rw [writeJsonDescriptor, found]
    simp only [class_, writable.1, read, Option.map_some]

end Leaves

/-! ### Objects that are written -/

/-- Entries for a list, where there is one for each of its elements from some number on. -/
theorem exists_entries {α β : Type} {Q : Nat → α → β → Prop}
    (more : ∀ {N N' a b}, N ≤ N' → Q N a b → Q N' a b) : ∀ {l : List α},
      (∀ a ∈ l, ∃ N b, Q N a b) → ∃ N, ∃ entries : List (α × β), entries.map Prod.fst = l ∧
        ∀ entry ∈ entries, Q N entry.1 entry.2
  | [], _ => ⟨0, [], rfl, fun entry member => absurd member List.not_mem_nil⟩
  | a :: l, each => by
    obtain ⟨N, b, first⟩ := each a List.mem_cons_self
    obtain ⟨N', entries, rfl, later⟩ := exists_entries (Q := Q) more fun a member =>
      each a (List.mem_cons_of_mem _ member)
    refine ⟨max N N', (a, b) :: entries, rfl, fun entry member => ?_⟩
    rcases List.mem_cons.mp member with rfl | member
    · exact more (Nat.le_max_left N N') first
    · exact more (Nat.le_max_right N N') (later entry member)

/-- A value is written as a tree, from some fuel on. -/
def ValueWritten (floats : CFloat) (reg : MetaRegistry) (mem : Mem) (descriptor : MetaDescriptor)
    (type object : Nat) : Prop :=
  ∀ pretty, ∃ N text, TreeOf reg descriptor text ∧ ∀ fuel, N ≤ fuel →
    (writeJsonDescriptor floats reg mem fuel object type pretty).map Prod.snd = some text

/-- The fields are written as trees, from some fuel on. -/
def FieldsWritten (floats : CFloat) (reg : MetaRegistry) (mem : Mem) (fields : List MetaField)
    (object : Nat) : Prop :=
  ∀ pretty, ∃ N, ∃ entries : List (MetaField × List UInt8), entries.map Prod.fst = fields ∧
    ∀ entry ∈ entries, FieldTreeOf reg entry.1 entry.2 ∧ ∀ fuel, N ≤ fuel →
      (writeJsonField reg mem (writeJsonDescriptor floats reg mem fuel) object entry.1 pretty).map Prod.snd =
        some entry.2

/-- A field that can be written. -/
structure WritableField (floats : CFloat) (reg : MetaRegistry) (mem : Mem) (object : Nat)
    (field : MetaField) (type : MetaDescriptor) : Prop where
  leaves : ¬ PassedOver reg mem object field → ∀ a ∈ fieldParts reg mem object field,
    LeafWritable floats mem type a
  objects : type.typeClass = .object → ∀ a ∈ fieldParts reg mem object field,
    WritableFields floats reg mem type.fields a

section Written

variable {floats : CFloat} {reg : MetaRegistry} {mem : Mem} {descriptor : MetaDescriptor}
  {field : MetaField} {fields : List MetaField} {object type : Nat} {text : List UInt8}

/-- **An object is written**, if its fields are. -/
theorem FieldsWritten.value (written : FieldsWritten floats reg mem descriptor.fields object)
    (names : CleanNames reg) (found : metaGetDescriptor reg type = some descriptor)
    (kind : descriptor.typeClass = .object) (some_ : descriptor.fields ≠ []) :
    ValueWritten floats reg mem descriptor type object := by
  intro pretty
  obtain ⟨N, entries, are, each⟩ := written (deeper pretty)
  obtain ⟨name, fieldNames⟩ := names _ _ found
  have entriesSome : entries ≠ [] := by
    rintro rfl
    exact some_ are.symm
  obtain ⟨value, text, -, standard, declares⟩ := treeOf_object pretty entriesSome are name
    fun entry member => ⟨fieldNames _ (are ▸ List.mem_map_of_mem member), (each entry member).1⟩
  refine ⟨N + 1, _, ⟨value, text, standard, declares⟩, fun fuel enough => ?_⟩
  obtain ⟨fuel, rfl⟩ := Nat.exists_eq_add_of_le' (Nat.one_le_of_lt enough)
  have wrote := writeFields_text fun entry member => (each entry member).2 fuel (by omega)
  rw [writeJsonDescriptor, found]
  simp only [kind]
  rw [writeJsonObject_text found, ← are, wrote]
  rfl

/-- **A field is written**, if its values are. -/
theorem WritableField.written (prints : floats.PrintsFixed) (names : CleanNames reg)
    (found : metaGetDescriptor reg field.type = some descriptor)
    (writable : WritableField floats reg mem object field descriptor)
    (clean : ∀ a ∈ fieldParts reg mem object field, CleanLeaf mem descriptor a)
    (objects : descriptor.typeClass = .object → ∀ a ∈ fieldParts reg mem object field,
      FieldsWritten floats reg mem descriptor.fields a) (pretty : Int) :
    ∃ N text, FieldTreeOf reg field text ∧ ∀ fuel, N ≤ fuel →
      (writeJsonField reg mem (writeJsonDescriptor floats reg mem fuel) object field pretty).map Prod.snd =
        some text := by
  have value : ¬ PassedOver reg mem object field → ∀ a ∈ fieldParts reg mem object field,
      ValueWritten floats reg mem descriptor field.type a := by
    intro notPassed a at_
    by_cases kind : descriptor.typeClass = .object
    · have some_ : descriptor.fields ≠ [] := by
        obtain ⟨some_, -⟩ := writable.objects kind a at_
        exact some_
      exact (objects kind a at_).value names found kind some_
    · intro pretty
      obtain ⟨text, tree, wrote⟩ := leaf_written prints found kind (writable.leaves notPassed a at_)
        (clean a at_) pretty
      exact ⟨1, text, tree, wrote⟩
  cases array : field.isArray with
  | false =>
    have notPassed : ¬ PassedOver reg mem object field := fun passed => by
      rw [passed.1] at array
      cases array
    obtain ⟨N, text, ⟨tree, rfl, standard, declares⟩, wrote⟩ := value notPassed (object + field.offset)
      ((writeJsonField_single (fun _ _ _ => none) object 0 array).2 ▸ List.mem_singleton.mpr rfl)
      pretty
    refine ⟨N, _, ⟨.empty, tree, rfl, standard, fun is => ?_, fun type found' => ?_⟩, fun fuel enough => ?_⟩
    · rw [array] at is
      cases is
    · obtain rfl := Option.some.inj (found.symm.trans found')
      exact ⟨fun _ => declares, fun is => by rw [array] at is; cases is⟩
    · rw [(writeJsonField_single _ object pretty array).1]
      exact wrote fuel enough
  | true =>
    obtain ⟨N, entries, places, each⟩ : ∃ N, ∃ entries : List (Nat × List UInt8),
        entries.map Prod.fst = fieldParts reg mem object field ∧
          (∀ fuel, N ≤ fuel → (writeJsonDescriptor floats reg mem fuel).WritesEntries field.type
            (deeper pretty) entries) ∧
          (entries.map Prod.snd = [[]] ∨ ∀ value ∈ entries.map Prod.snd, TreeOf reg descriptor value) := by
      by_cases passed : PassedOver reg mem object field
      · -- at most one element, for which nothing is written
        obtain ⟨-, few, type, found', valueless⟩ := passed
        obtain rfl := Option.some.inj (found.symm.trans found')
        refine ⟨1, (fieldParts reg mem object field).map fun a => (a, []), ?_, fun fuel some_ => ?_, ?_⟩
        · rw [List.map_map]
          exact List.map_id' _
        · intro entry member
          obtain ⟨a, -, rfl⟩ := List.mem_map.mp member
          obtain ⟨fuel, rfl⟩ := Nat.exists_eq_add_of_le' some_
          exact Valueless.writes valueless found fuel a _
        · match fieldParts reg mem object field, few with
          | [], _ => exact Or.inr fun value member => absurd member List.not_mem_nil
          | [a], _ => exact Or.inl rfl
      · obtain ⟨N, entries, places, each⟩ := exists_entries
          (Q := fun N a text => TreeOf reg descriptor text ∧ ∀ fuel, N ≤ fuel →
            (writeJsonDescriptor floats reg mem fuel a field.type (deeper pretty)).map Prod.snd = some text)
          (fun more holds => ⟨holds.1, fun fuel enough => holds.2 fuel (more.trans enough)⟩)
          fun a at_ => value passed a at_ (deeper pretty)
        refine ⟨N, entries, places, fun fuel enough entry member => (each entry member).2 fuel enough,
          Or.inr fun value member => ?_⟩
        obtain ⟨entry, among, rfl⟩ := List.mem_map.mp member
        exact (each entry among).1
    obtain ⟨before, tree, text, standard, isArray, declares⟩ := treeOf_array pretty each.2
    refine ⟨N, _, ⟨before, tree, text, standard, fun _ => isArray, fun type found' => ?_⟩,
      fun fuel enough => (writeJsonField_array array found).mpr ⟨entries, places, each.1 fuel enough, rfl⟩⟩
    obtain rfl := Option.some.inj (found.symm.trans found')
    exact ⟨fun single => (by rw [array] at single; cases single), fun _ => declares⟩

theorem CleanObject.part (clean : CleanObject reg mem fields object) {a : Nat} (member : field ∈ fields)
    (at_ : a ∈ fieldParts reg mem object field) (found : metaGetDescriptor reg field.type = some descriptor)
    (kind : descriptor.typeClass = .object) : CleanObject reg mem descriptor.fields a :=
  fun type a' met => clean type a' (.deeper member at_ found kind met)

/-- **An object that can be written** is written, as a tree. -/
theorem fields_written (prints : floats.PrintsFixed) (names : CleanNames reg)
    (writable : WritableFields floats reg mem fields object) (clean : CleanObject reg mem fields object) :
    FieldsWritten floats reg mem fields object := by
  induction writable with
  | @intro fields object some_ registered leaves objects ih =>
    intro pretty
    obtain ⟨N, entries, are, each⟩ := exists_entries
      (Q := fun N field text => FieldTreeOf reg field text ∧ ∀ fuel, N ≤ fuel →
        (writeJsonField reg mem (writeJsonDescriptor floats reg mem fuel) object field pretty).map Prod.snd =
          some text)
      (fun more holds => ⟨holds.1, fun fuel enough => holds.2 fuel (more.trans enough)⟩)
      fun field member => by
        obtain ⟨type, found⟩ := Option.isSome_iff_exists.mp (registered field member)
        have good : WritableField floats reg mem object field type :=
          ⟨fun notPassed a at_ => leaves field member notPassed a at_ type found,
            fun kind a at_ => objects field member a at_ type found kind⟩
        exact good.written prints names found (fun a at_ => clean type a (.here member at_ found))
          (fun kind a at_ => ih field member a at_ type found kind (clean.part member at_ found kind)) pretty
    exact ⟨N, entries, are, each⟩

end Written

/-! ### Texts in which a value is missing -/

/-- A value is read. -/
def Fed (text : List UInt8) : Prop :=
  ∀ (place : JsonPlace) (rest : List UInt8), place.Outside →
    placeBehind place (text ++ rest) = placeBehind .fed rest

/-- **The text is refused** at the next comma, bracket or brace, where a value must follow. -/
def Refused (text : List UInt8) : Prop :=
  ∀ (s : List UInt8) (c : UInt8) (rest : List UInt8), (∀ d ∈ s, isWhitespace d = true) →
    (c = charByte ',' ∨ isClosing c = true) → placeBehind .hungry (text ++ (s ++ c :: rest)) = .broken

section Refusals

variable {reg : MetaRegistry} {descriptor : MetaDescriptor} {field : MetaField} {pretty : Int}
  {text name : List UInt8} {place : JsonPlace}

theorem hungry_outside : JsonPlace.hungry.Outside := Or.inr (Or.inl rfl)

theorem JsonPlace.Outside.newline (outside : place.Outside) {rest : List UInt8} :
    placeBehind place (ifPretty pretty (ascii "\n") ++ rest) = placeBehind place rest :=
  outside.gap (.newline pretty)

theorem JsonPlace.Outside.space (outside : place.Outside) {rest : List UInt8} :
    placeBehind place (ifPretty pretty (ascii " ") ++ rest) = placeBehind place rest :=
  outside.gap (.space pretty)

theorem JsonPlace.Outside.spaces (outside : place.Outside) {rest : List UInt8} :
    placeBehind place (Vaudou.spaces pretty ++ rest) = placeBehind place rest :=
  outside.gap (.spaces pretty)

theorem TreeOf.fed (tree : TreeOf reg descriptor text) : Fed text := by
  obtain ⟨value, rfl, standard, -⟩ := tree
  intro place rest outside
  rw [← value.textThen_apart, standard.place outside]

theorem FieldTreeOf.fed (tree : FieldTreeOf reg field text) : Fed text := by
  obtain ⟨before, value, rfl, standard, -⟩ := tree
  intro place rest outside
  rw [List.append_assoc, outside.gap, ← value.textThen_apart, standard.place outside]

/-- A text is not read and refused at once. -/
theorem Fed.not_refused (fed : Fed text) : ¬ Refused text := by
  intro refused
  have broken := refused [] (charByte ']') [] (fun d member => absurd member List.not_mem_nil) (Or.inr rfl)
  rw [fed _ _ hungry_outside] at broken
  cases broken

/-- **An array with a value missing** is refused, unless that is its only one and it is empty. -/
theorem elements_refused {s rest : List UInt8} (blank : ∀ d ∈ s, isWhitespace d = true) :
    ∀ {values : List (List UInt8)} {place : JsonPlace}, place.Ready →
      (∀ value ∈ values, Fed value ∨ ∀ place : JsonPlace, place.Ready → Unfed place value) →
      (∃ value ∈ values, ¬ Fed value) → ¬ (values = [[]] ∧ place = .opened) →
        placeBehind place (elementsText pretty values ++ (s ++ charByte ']' :: rest)) = .broken
  | value :: later, place, ready, each, missing, kept => by
    have enter : placeBehind place (elementsText pretty (value :: later) ++ (s ++ charByte ']' :: rest)) =
        placeBehind place (value ++ ((if later.isEmpty then [] else ascii ",") ++
          (ifPretty pretty (ascii "\n") ++ (elementsText pretty later ++ (s ++ charByte ']' :: rest))))) := by
      rw [elementsText]
      simp only [List.append_assoc]
      exact ready.outside.spaces
    rw [enter]
    rcases each value List.mem_cons_self with fed | unfed
    · -- the missing value is a later one: there is a comma
      obtain ⟨missed, member, not⟩ := missing
      rcases List.mem_cons.mp member with rfl | member
      · exact absurd fed not
      have some_ : later.isEmpty = false := List.isEmpty_eq_false_iff.mpr (List.ne_nil_of_mem member)
      rw [fed place _ ready.outside, some_]
      show placeBehind .hungry (ifPretty pretty (ascii "\n") ++ _) = _
      rw [hungry_outside.newline]
      exact elements_refused blank (Or.inr rfl) (fun value among => each value (List.mem_cons_of_mem _ among))
        ⟨missed, member, not⟩ fun both => by cases both.2
    · cases later with
      | nil =>
        have line : ∀ d ∈ ifPretty pretty (ascii "\n") ++ s, isWhitespace d = true := fun d member =>
          (List.mem_append.mp member).elim ((Gap.newline pretty).blank d) (blank d)
        have closed : placeBehind place (value ++ ((ifPretty pretty (ascii "\n") ++ s) ++
            charByte ']' :: rest)) = .broken :=
          place_unfed ready (unfed place ready) line
            (Or.inr (show isClosing (charByte ']') = true by decide)) fun all => kept ⟨by rw [all.1], all.2.1⟩
        rw [← closed]
        simp [elementsText]
      | cons next later =>
        exact place_unfed (s := []) ready (unfed place ready) (fun d member => absurd member List.not_mem_nil)
          (Or.inl rfl) fun all => absurd all.2.2 (by decide)

/-- A text without a value is not one that is read. -/
theorem not_fed (unfed : Unfed .hungry text) : ¬ Fed text := by
  intro fed
  have read := fed .hungry [charByte ']'] hungry_outside
  have refused : placeBehind .hungry (text ++ ([] ++ [charByte ']'])) = .broken :=
    place_unfed (Or.inr rfl) unfed (fun d member => absurd member List.not_mem_nil)
      (Or.inr (show isClosing (charByte ']') = true by decide)) fun all => by cases all.2.1
  rw [List.nil_append, read] at refused
  cases refused

/-- The same with the brackets. -/
theorem arrayText_refused {values : List (List UInt8)}
    (each : ∀ value ∈ values, Fed value ∨ ∀ place : JsonPlace, place.Ready → Unfed place value)
    (missing : ∃ value ∈ values, ¬ Fed value) (kept : values ≠ [[]]) :
    Refused (arrayText pretty values) := by
  intro s c rest _ _
  have inner : placeBehind .opened (elementsText (deeper pretty) values ++
      ((Gap.spaces pretty).bytes ++ charByte ']' :: (s ++ c :: rest))) = .broken :=
    elements_refused (Gap.spaces pretty).blank (Or.inl rfl) each missing fun both => kept both.1
  have outer : placeBehind .hungry (arrayText pretty values ++ (s ++ c :: rest)) =
      placeBehind .opened (elementsText (deeper pretty) values ++
        ((Gap.spaces pretty).bytes ++ charByte ']' :: (s ++ c :: rest))) := by
    have line : placeBehind .hungry ((Gap.line pretty pretty).bytes ++ charByte '[' ::
        ((Gap.newline pretty).bytes ++ (elementsText (deeper pretty) values ++
          ((Gap.spaces pretty).bytes ++ charByte ']' :: (s ++ c :: rest))))) = _ :=
      hungry_outside.gap (.line pretty pretty)
    have opened : JsonPlace.opened.Outside := Or.inl rfl
    rw [placeBehind_cons, hungry_outside.opens _ (Or.inl rfl), opened.gap] at line
    rw [← line]
    simp [arrayText, Gap.line, Gap.append, Gap.newline, Gap.spaces, ascii]
  rw [outer, inner]

/-- Behind the name of a field its value is expected. -/
theorem placeBehind_name (clean : CleanContent name) {rest : List UInt8} :
    placeBehind .hungry (spaces pretty ++ (quoted name ++ (ascii ":" ++
      (ifPretty pretty (ascii " ") ++ rest)))) = placeBehind .hungry rest := by
  rw [hungry_outside.spaces, hungry_outside.quoted clean.body]
  exact hungry_outside.space

/-- **An object with a value missing**, or without fields behind the comma of its type name. -/
theorem fieldsText_refused : ∀ {entries : List (MetaField × List UInt8)},
    (∀ entry ∈ entries, CleanContent entry.1.name ∧ (Fed entry.2 ∨ Refused entry.2)) →
      (entries = [] ∨ ∃ entry ∈ entries, Refused entry.2) → ∀ {s rest : List UInt8},
        (∀ d ∈ s, isWhitespace d = true) →
          placeBehind .hungry (fieldsText pretty entries ++ (s ++ charByte '\x7d' :: rest)) = .broken
  | [], _, _, s, rest, blank => by
    rw [fieldsText, List.nil_append, hungry_outside.blank blank, placeBehind_cons]
    exact placeBehind_broken
  | (field, value) :: later, each, missing, s, rest, blank => by
    obtain ⟨clean, here⟩ := each _ List.mem_cons_self
    have enter : placeBehind .hungry (fieldsText pretty ((field, value) :: later) ++
        (s ++ charByte '\x7d' :: rest)) = placeBehind .hungry (value ++ ((if later.isEmpty then [] else
          ascii ",") ++ (ifPretty pretty (ascii "\n") ++ (fieldsText pretty later ++
            (s ++ charByte '\x7d' :: rest))))) := by
      rw [fieldsText]
      simp only [List.append_assoc]
      exact placeBehind_name clean
    rw [enter]
    cases later with
    | nil =>
      have refused : Refused value := by
        rcases missing with none_ | ⟨entry, member, refused⟩
        · cases none_
        · rwa [List.mem_singleton.mp member] at refused
      have line : ∀ d ∈ ifPretty pretty (ascii "\n") ++ s, isWhitespace d = true := fun d member =>
        (List.mem_append.mp member).elim ((Gap.newline pretty).blank d) (blank d)
      have closed := refused _ _ rest line (Or.inr (show isClosing (charByte '\x7d') = true by decide))
      rw [← closed]
      simp [fieldsText]
    | cons next later =>
      rcases here with fed | refused
      · rw [fed _ _ hungry_outside]
        show placeBehind .hungry (ifPretty pretty (ascii "\n") ++ _) = _
        rw [hungry_outside.newline]
        refine fieldsText_refused (fun entry member => each entry (List.mem_cons_of_mem _ member))
          (Or.inr ?_) blank
        rcases missing with none_ | ⟨entry, member, refused⟩
        · cases none_
        · rcases List.mem_cons.mp member with rfl | member
          · exact absurd refused fed.not_refused
          · exact ⟨entry, member, refused⟩
      · exact refused [] (charByte ',') _ (fun d member => absurd member List.not_mem_nil) (Or.inl rfl)

/-- The same with the braces and the type name. -/
theorem objectFields_refused (clean : CleanContent name) {place : JsonPlace} (outside : place.Outside)
    {fields : List UInt8} (refused : ∀ rest, placeBehind .hungry (fields ++
      ((Gap.spaces pretty).bytes ++ charByte '\x7d' :: rest)) = .broken) :
    placeBehind place (objectFields pretty name fields) = .broken := by
  have opened : JsonPlace.opened.Outside := Or.inl rfl
  have inner := refused []
  have whole : placeBehind place (charByte '\x7b' :: ((Gap.line pretty (deeper pretty)).bytes ++
      (quoted typeNameKey ++ (charByte ':' :: ((Gap.space pretty).bytes ++ (quoted name ++ (charByte ',' ::
        ((Gap.newline pretty).bytes ++ (fields ++ ((Gap.spaces pretty).bytes ++ [charByte '\x7d'])))))))))) =
          .broken := by
    rw [placeBehind_cons, outside.opens _ (Or.inr rfl), opened.gap, opened.quoted typeNameKey_clean.body,
      placeBehind_cons]
    show placeBehind .hungry _ = _
    rw [hungry_outside.gap, hungry_outside.quoted clean.body, placeBehind_cons]
    show placeBehind .hungry _ = _
    rw [hungry_outside.gap]
    exact inner
  rw [← whole]
  simp [objectFields, Gap.line, Gap.append, Gap.newline, Gap.spaces, Gap.space, ascii]

end Refusals

/-! ### Objects that cannot be written -/

/-- What a value that is written can be: one that can be written, an object with a type that is not
registered, or a text that is no value. -/
def ValueOutcome (floats : CFloat) (reg : MetaRegistry) (mem : Mem) (type : MetaDescriptor) (object : Nat)
    (text : List UInt8) : Prop :=
  (LeafWritable floats mem type object ∧
      (type.typeClass = .object → WritableFields floats reg mem type.fields object)) ∨
    (type.typeClass = .object ∧ MissesType reg mem type.fields object) ∨
      ((∀ place : JsonPlace, place.Ready → Unfed place text) ∧ (text = [] → type.Valueless))

/-- The outcomes of all values, for a fuel. -/
def ValueOutcomes (floats : CFloat) (reg : MetaRegistry) (mem : Mem) (fuel : Nat) : Prop :=
  ∀ id type object pretty text, metaGetDescriptor reg id = some type → CleanLeaf mem type object →
    (type.typeClass = .object → CleanObject reg mem type.fields object) →
      (writeJsonDescriptor floats reg mem fuel object id pretty).map Prod.snd = some text →
        ValueOutcome floats reg mem type object text

section Outcomes

variable {floats : CFloat} {reg : MetaRegistry} {mem : Mem} {descriptor : MetaDescriptor}
  {field : MetaField} {fields : List MetaField} {object type fuel : Nat} {pretty : Int} {text : List UInt8}

/-- What can be written is written as a tree. -/
theorem writable_fed (prints : floats.PrintsFixed) (names : CleanNames reg)
    (found : metaGetDescriptor reg field.type = some descriptor)
    (writable : WritableField floats reg mem object field descriptor)
    (clean : ∀ a ∈ fieldParts reg mem object field, CleanLeaf mem descriptor a ∧
      (descriptor.typeClass = .object → CleanObject reg mem descriptor.fields a))
    (wrote : (writeJsonField reg mem (writeJsonDescriptor floats reg mem fuel) object field pretty).map Prod.snd =
      some text) : Fed text := by
  obtain ⟨N, text', tree, written⟩ := writable.written prints names found (fun a at_ => (clean a at_).1)
    (fun kind a at_ => fields_written prints names (writable.objects kind a at_) ((clean a at_).2 kind)) pretty
  have more := writeJsonField_mono (Nat.le_max_left fuel N) wrote
  rw [written _ (Nat.le_max_right fuel N)] at more
  exact Option.some.inj more ▸ tree.fed

/-- A value that can be written is read. -/
theorem value_fed (prints : floats.PrintsFixed) (names : CleanNames reg)
    (found : metaGetDescriptor reg type = some descriptor)
    (leaf : LeafWritable floats mem descriptor object)
    (nested : descriptor.typeClass = .object → WritableFields floats reg mem descriptor.fields object)
    (clean : CleanLeaf mem descriptor object)
    (cleanObject : descriptor.typeClass = .object → CleanObject reg mem descriptor.fields object)
    (wrote : (writeJsonDescriptor floats reg mem fuel object type pretty).map Prod.snd = some text) :
    Fed text := by
  -- a field that is just this value
  let single : MetaField := ⟨[], type, 0, 0, 0, none⟩
  have notArray : single.isArray = false :=
    Bool.or_eq_false_iff.mpr ⟨Nat.zero_testBit 0, Nat.zero_testBit 1⟩
  obtain ⟨same, parts⟩ := writeJsonField_single (writeJsonDescriptor floats reg mem fuel) object pretty notArray
  have here : ∀ a ∈ fieldParts reg mem object single, a = object := fun a at_ => by
    rw [parts] at at_
    exact List.mem_singleton.mp at_
  have writable : WritableField floats reg mem object single descriptor := by
    refine ⟨fun _ a at_ => ?_, fun kind a at_ => ?_⟩ <;> rw [here a at_]
    · exact leaf
    · exact nested kind
  refine writable_fed prints names found writable (fun a at_ => ?_) (same.trans wrote)
  rw [here a at_]
  exact ⟨clean, cleanObject⟩

/-- **A field that is written** can be written, or misses a type, or its text is refused. -/
theorem field_outcome (prints : floats.PrintsFixed) (names : CleanNames reg)
    (values : ValueOutcomes floats reg mem fuel) (found : metaGetDescriptor reg field.type = some descriptor)
    (clean : ∀ a ∈ fieldParts reg mem object field, CleanLeaf mem descriptor a ∧
      (descriptor.typeClass = .object → CleanObject reg mem descriptor.fields a))
    (wrote : (writeJsonField reg mem (writeJsonDescriptor floats reg mem fuel) object field pretty).map Prod.snd =
      some text) :
    WritableField floats reg mem object field descriptor ∨
      (∃ a ∈ fieldParts reg mem object field, descriptor.typeClass = .object ∧
        MissesType reg mem descriptor.fields a) ∨ Refused text := by
  cases array : field.isArray with
  | false =>
    obtain ⟨same, parts⟩ := writeJsonField_single (writeJsonDescriptor floats reg mem fuel) object pretty array
    rw [same] at wrote
    have here : object + field.offset ∈ fieldParts reg mem object field := parts ▸ List.mem_singleton.mpr rfl
    obtain ⟨cleanLeaf, cleanObject⟩ := clean _ here
    rcases values _ _ _ _ _ found cleanLeaf cleanObject wrote with ⟨leaf, nested⟩ | ⟨kind, misses⟩ | ⟨unfed, -⟩
    · refine Or.inl ⟨fun _ a at_ => ?_, fun kind a at_ => ?_⟩ <;> rw [parts] at at_ <;>
        rw [List.mem_singleton.mp at_]
      · exact leaf
      · exact nested kind
    · exact Or.inr (Or.inl ⟨_, here, kind, misses⟩)
    · refine Or.inr (Or.inr fun s c rest blank ends => ?_)
      exact place_unfed (Or.inr rfl) (unfed _ (Or.inr rfl)) blank ends fun all => by cases all.2.1
  | true =>
    obtain ⟨entries, places, each, rfl⟩ := (writeJsonField_array array found).mp wrote
    have at_ : ∀ entry ∈ entries, entry.1 ∈ fieldParts reg mem object field := fun entry member =>
      places ▸ List.mem_map_of_mem member
    have outcome : ∀ entry ∈ entries, ValueOutcome floats reg mem descriptor entry.1 entry.2 :=
      fun entry member => values _ _ _ _ _ found (clean _ (at_ entry member)).1 (clean _ (at_ entry member)).2
        (each entry member)
    by_cases missing : ∃ entry ∈ entries,
        descriptor.typeClass = .object ∧ MissesType reg mem descriptor.fields entry.1
    · obtain ⟨entry, member, kind, misses⟩ := missing
      exact Or.inr (Or.inl ⟨_, at_ entry member, kind, misses⟩)
    have fedOrUnfed : ∀ entry ∈ entries, (LeafWritable floats mem descriptor entry.1 ∧
        (descriptor.typeClass = .object → WritableFields floats reg mem descriptor.fields entry.1) ∧
          Fed entry.2) ∨ ((∀ place : JsonPlace, place.Ready → Unfed place entry.2) ∧
            (entry.2 = [] → descriptor.Valueless)) := by
      intro entry member
      rcases outcome entry member with ⟨leaf, nested⟩ | ⟨kind, misses⟩ | unfed
      · exact Or.inl ⟨leaf, nested, value_fed prints names found leaf nested (clean _ (at_ entry member)).1
          (clean _ (at_ entry member)).2 (each entry member)⟩
      · exact absurd ⟨entry, member, kind, misses⟩ missing
      · exact Or.inr unfed
    by_cases all : ∀ entry ∈ entries, LeafWritable floats mem descriptor entry.1 ∧
        (descriptor.typeClass = .object → WritableFields floats reg mem descriptor.fields entry.1) ∧ Fed entry.2
    · have part : ∀ a ∈ fieldParts reg mem object field, ∃ entry ∈ entries, entry.1 = a := fun a among => by
        rw [← places] at among
        exact List.mem_map.mp among
      refine Or.inl ⟨fun _ a among => ?_, fun kind a among => ?_⟩
      · obtain ⟨entry, member, rfl⟩ := part a among
        exact (all entry member).1
      · obtain ⟨entry, member, rfl⟩ := part a among
        exact (all entry member).2.1 kind
    push Not at all
    obtain ⟨bad, member, not⟩ := all
    have unfed := (fedOrUnfed bad member).resolve_left fun good => not good.1 good.2.1 good.2.2
    by_cases sole : entries.map Prod.snd = [[]]
    · -- the only element, of a type without a value
      have length : entries.length = 1 := by
        rw [← List.length_map (f := Prod.snd), sole]
        rfl
      have empty : bad.2 = [] := List.mem_singleton.mp (sole ▸ List.mem_map_of_mem member)
      have valueless := unfed.2 empty
      have few : (fieldParts reg mem object field).length ≤ 1 := by
        rw [← places, List.length_map, length]
      refine Or.inl ⟨fun notPassed => absurd ⟨array, few, _, found, valueless⟩ notPassed, fun kind => ?_⟩
      rcases valueless with other | ⟨other, -⟩ <;>
      · rw [kind] at other
        cases other
    · refine Or.inr (Or.inr (arrayText_refused (fun value among => ?_) ⟨bad.2, List.mem_map_of_mem member,
        not_fed (unfed.1 _ (Or.inr rfl))⟩ sole))
      obtain ⟨entry, inside, rfl⟩ := List.mem_map.mp among
      exact (fedOrUnfed entry inside).imp (fun good => good.2.2) fun unfed => unfed.1

/-- **An object that is written** can be written, or misses a type, or its text is refused. -/
theorem fields_outcome (prints : floats.PrintsFixed) (names : CleanNames reg)
    (values : ValueOutcomes floats reg mem fuel) (clean : CleanObject reg mem fields object)
    (fieldNames : ∀ field ∈ fields, CleanContent field.name) {entries : List (MetaField × List UInt8)}
    (are : entries.map Prod.fst = fields)
    (wrote : ∀ entry ∈ entries, (writeJsonField reg mem (writeJsonDescriptor floats reg mem fuel) object entry.1
      pretty).map Prod.snd = some entry.2) :
    WritableFields floats reg mem fields object ∨ MissesType reg mem fields object ∨
      ∀ s rest, (∀ d ∈ s, isWhitespace d = true) →
        placeBehind .hungry (fieldsText pretty entries ++ (s ++ charByte '\x7d' :: rest)) = .broken := by
  have among : ∀ entry ∈ entries, entry.1 ∈ fields := fun entry member => are ▸ List.mem_map_of_mem member
  by_cases registered : ∃ field ∈ fields, metaGetDescriptor reg field.type = none
  · obtain ⟨field, member, missing⟩ := registered
    exact Or.inr (Or.inl (.field member missing))
  push Not at registered
  by_cases misses : MissesType reg mem fields object
  · exact Or.inr (Or.inl misses)
  have outcome : ∀ entry ∈ entries, ∃ type, metaGetDescriptor reg entry.1.type = some type ∧
      ((WritableField floats reg mem object entry.1 type ∧ Fed entry.2) ∨ Refused entry.2) := by
    intro entry member
    obtain ⟨type, found⟩ := Option.ne_none_iff_exists'.mp (registered _ (among entry member))
    have parts : ∀ a ∈ fieldParts reg mem object entry.1, CleanLeaf mem type a ∧
        (type.typeClass = .object → CleanObject reg mem type.fields a) := fun a at_ =>
      ⟨clean type a (.here (among entry member) at_ found), fun kind =>
        clean.part (among entry member) at_ found kind⟩
    refine ⟨type, found, ?_⟩
    rcases field_outcome prints names values found parts (wrote entry member) with
      writable | ⟨a, at_, kind, missed⟩ | refused
    · exact Or.inl ⟨writable, writable_fed prints names found writable parts (wrote entry member)⟩
    · exact absurd (.part (among entry member) at_ found kind missed) misses
    · exact Or.inr refused
  have each : ∀ entry ∈ entries, CleanContent entry.1.name ∧ (Fed entry.2 ∨ Refused entry.2) := by
    intro entry member
    obtain ⟨type, -, outcome⟩ := outcome entry member
    exact ⟨fieldNames _ (among entry member), outcome.imp (fun good => good.2) id⟩
  by_cases bad : entries = [] ∨ ∃ entry ∈ entries, Refused entry.2
  · exact Or.inr (Or.inr fun s rest blank => fieldsText_refused each bad blank)
  · rw [not_or] at bad
    have good : ∀ field ∈ fields, ∃ type, metaGetDescriptor reg field.type = some type ∧
        WritableField floats reg mem object field type := by
      intro field member
      rw [← are] at member
      obtain ⟨entry, inside, rfl⟩ := List.mem_map.mp member
      obtain ⟨type, found, outcome⟩ := outcome entry inside
      exact ⟨type, found, (outcome.resolve_right fun refused => bad.2 ⟨entry, inside, refused⟩).1⟩
    refine Or.inl (.intro ?_ (fun field member => ?_) (fun field member notPassed a at_ type found => ?_)
      fun field member a at_ type found kind => ?_)
    · rintro rfl
      exact bad.1 (List.map_eq_nil_iff.mp are)
    · obtain ⟨type, found, -⟩ := good field member
      rw [found]
      rfl
    · obtain ⟨type', found', writable⟩ := good field member
      obtain rfl := Option.some.inj (found.symm.trans found')
      exact writable.leaves notPassed a at_
    · obtain ⟨type', found', writable⟩ := good field member
      obtain rfl := Option.some.inj (found.symm.trans found')
      exact writable.objects kind a at_

/-- **Every value that is written** has one of the outcomes: the induction is on the fuel. -/
theorem value_outcomes (prints : floats.PrintsFixed) (names : CleanNames reg) :
    ∀ fuel, ValueOutcomes floats reg mem fuel
  | 0 => fun id type object pretty text found clean cleanObject wrote => by cases wrote
  | fuel + 1 => by
    intro id type object pretty text found clean cleanObject wrote
    have broken : (∀ place : JsonPlace, place.Ready → placeBehind place text = .broken) →
        ValueOutcome floats reg mem type object text := by
      refine fun broken => Or.inr (Or.inr ⟨fun place ready => Or.inr (Or.inl (broken place ready)), ?_⟩)
      rintro rfl
      cases broken .hungry (Or.inr rfl)
    rw [writeJsonDescriptor, found] at wrote
    cases kind : type.typeClass with
    | array =>
      simp only [kind, Option.map_some] at wrote
      obtain rfl := Option.some.inj wrote
      exact Or.inr (Or.inr ⟨fun place _ => Or.inl rfl, fun _ => Or.inl kind⟩)
    | primitive =>
      simp only [kind, Option.map_some] at wrote
      obtain rfl := Option.some.inj wrote
      by_cases cut : CutFloat floats mem object type.primitive
      · have point := fun (place : JsonPlace) (ready : place.Ready) =>
          primitiveText_cut prints kind clean cut ready.outside
        refine Or.inr (Or.inr ⟨fun place ready => Or.inr (Or.inr (point place ready)), fun empty => ?_⟩)
        have hungry := point .hungry (Or.inr rfl)
        rw [empty] at hungry
        cases hungry
      · refine Or.inl ⟨?_, fun object => by rw [kind] at object; cases object⟩
        unfold LeafWritable
        rw [kind]
        exact cut
    | string =>
      cases slice : type.string with
      | slice =>
        simp only [kind, slice, Option.map_some] at wrote
        obtain rfl := Option.some.inj wrote
        exact Or.inr (Or.inr ⟨fun place _ => Or.inl rfl, fun _ => Or.inr ⟨kind, slice⟩⟩)
      | cstring =>
        simp only [kind, slice, Option.map_map, Option.map_eq_some_iff] at wrote
        obtain ⟨content, read, -⟩ := wrote
        refine Or.inl ⟨?_, fun object => by rw [kind] at object; cases object⟩
        unfold LeafWritable
        rw [kind]
        exact ⟨slice, by rw [read]; rfl⟩
    | object =>
      simp only [kind] at wrote
      rw [writeJsonObject_text found, Option.map_map, Option.map_map, Option.map_eq_some_iff] at wrote
      obtain ⟨fieldsWritten, wrote, rfl⟩ := wrote
      obtain ⟨entries, are, rfl, each⟩ := writeFields_entries wrote
      obtain ⟨name, fieldNames⟩ := names _ _ found
      rcases fields_outcome prints names (value_outcomes prints names fuel) (cleanObject kind) fieldNames are
        each with writable | misses | refused
      · refine Or.inl ⟨?_, fun _ => writable⟩
        unfold LeafWritable
        rw [kind]
        trivial
      · exact Or.inr (Or.inl ⟨kind, misses⟩)
      · exact broken fun place ready => objectFields_refused name ready.outside fun rest =>
          refused _ rest (Gap.spaces pretty).blank

theorem WritableFields.registered (writable : WritableFields floats reg mem fields object) :
    ¬ MissesType reg mem fields object := by
  intro misses
  induction misses with
  | field member missing =>
    obtain ⟨-, registered, -, -⟩ := writable
    have found := registered _ member
    rw [missing] at found
    cases found
  | part member at_ found kind _ ih =>
    obtain ⟨-, -, -, objects⟩ := writable
    exact ih (objects _ member _ at_ _ found kind)

theorem metaWriteJson_text (found : metaGetDescriptor reg type = some descriptor) :
    metaWriteJson floats fuel reg mem object type pretty =
      (writeFields reg mem (writeJsonDescriptor floats reg mem fuel) object (deeper pretty)
        descriptor.fields).map fun fields => (0, objectFields pretty descriptor.name fields) := by
  rw [metaWriteJson, writeJsonObject_text found, Option.map_map]
  rfl

/-- A text that is refused is no object of the type. -/
theorem WellFormedFor.place (wellFormed : WellFormedFor reg type text) : placeBehind .hungry text = .fed := by
  obtain ⟨descriptor, value, -, rfl, -, standard, -⟩ := wellFormed
  exact standard.place hungry_outside

/-- **The writer returns and reports** if and only if the type is registered and the object can be written. -/
theorem metaWriteJson_reports_iff (prints : floats.PrintsFixed) (names : CleanNames reg)
    (clean : ∀ descriptor, metaGetDescriptor reg type = some descriptor →
      CleanObject reg mem descriptor.fields object) :
    Reports floats reg mem object type pretty ↔
      ∃ descriptor, metaGetDescriptor reg type = some descriptor ∧
        WritableFields floats reg mem descriptor.fields object := by
  constructor
  · rintro ⟨fuel, code, text, wrote, success, failure⟩
    obtain ⟨value, _, same⟩ := Option.map_eq_some_iff.mp wrote
    obtain ⟨rfl, -⟩ := Prod.mk.inj same
    have registered : ¬ Unregistered reg mem object type := fun unregistered => failure unregistered rfl
    cases found : metaGetDescriptor reg type with
    | none => exact absurd (Or.inl found) registered
    | some descriptor =>
      rw [metaWriteJson_text found, Option.map_eq_some_iff] at wrote
      obtain ⟨fieldsWritten, wrote, same⟩ := wrote
      obtain ⟨entries, are, rfl, each⟩ := writeFields_entries wrote
      obtain ⟨name, fieldNames⟩ := names _ _ found
      rcases fields_outcome prints names (value_outcomes prints names fuel) (clean _ found) fieldNames are
        each with writable | misses | refused
      · exact ⟨descriptor, rfl, writable⟩
      · exact absurd (Or.inr ⟨descriptor, found, misses⟩) registered
      · have broken :
            placeBehind .hungry (objectFields pretty descriptor.name (fieldsText (deeper pretty) entries)) =
            .broken :=
          objectFields_refused name hungry_outside fun rest => refused _ rest (Gap.spaces pretty).blank
        have read := (success rfl).place
        rw [← (Prod.mk.inj same).2, broken] at read
        cases read
  · rintro ⟨descriptor, found, writable⟩
    obtain ⟨N, entries, are, each⟩ := fields_written prints names writable (clean _ found) (deeper pretty)
    obtain ⟨name, fieldNames⟩ := names _ _ found
    obtain ⟨some_, -⟩ := id writable
    have entriesSome : entries ≠ [] := by
      rintro rfl
      exact some_ are.symm
    obtain ⟨value, text, object_, standard, declares⟩ := treeOf_object pretty entriesSome are name
      fun entry member => ⟨fieldNames _ (are ▸ List.mem_map_of_mem member), (each entry member).1⟩
    have wrote := writeFields_text fun entry member => (each entry member).2 N (Nat.le_refl N)
    refine ⟨N, 0, _, ?_, fun _ => ⟨descriptor, value, found, text, object_, standard, declares⟩,
      fun unregistered => ?_⟩
    · rw [metaWriteJson_text found, ← are, wrote]
      rfl
    · rcases unregistered with missing | ⟨descriptor', found', misses⟩
      · rw [missing] at found
        cases found
      · obtain rfl := Option.some.inj (found.symm.trans found')
        exact absurd misses writable.registered

end Outcomes

/-! ### Objects without fields, and with a field of another type -/

def reportTypes : List MetaDescriptor :=
  [defaultPrimitive "int8_t" 1 .i8,
    ⟨ascii "Count", .object, 1, 0, .i8, [⟨ascii "n", 1, 0, 0, 0, none⟩], .cstring⟩,
    ⟨ascii "Empty", .object, 1, 0, .i8, [], .cstring⟩,
    ⟨ascii "Holder", .object, 1, 0, .i8, [⟨ascii "held", 9, 0, 0, 0, none⟩], .cstring⟩]

def reportRegistry : MetaRegistry := (metaRegisterAll (metaEmpty capacityFirst) reportTypes).1

/-- The types with their ids. -/
def reportListed : List MetaDescriptor := (metaRegisterAll (metaEmpty capacityFirst) reportTypes).2

theorem reportRegistry_lists : reportRegistry.Lists reportListed :=
  metaRegisterAll_lists reportTypes (metaEmpty_lists _)

theorem reportRegistry_found (descriptor : MetaDescriptor) (member : descriptor ∈ reportListed) :
    metaGetDescriptor reportRegistry descriptor.id = some descriptor :=
  metaGetDescriptor_of_mem reportRegistry_lists (by decide +kernel) member

theorem reportRegistry_names : CleanNames reportRegistry := by
  have all : ∀ descriptor ∈ reportListed, CleanContent descriptor.name ∧
      ∀ field ∈ descriptor.fields, CleanContent field.name := by
    unfold CleanContent
    decide +kernel
  exact fun id descriptor found => all descriptor (metaGetDescriptor_some reportRegistry_lists found).1

theorem zeroFloats_printsFixed : zeroFloats.PrintsFixed := by
  have zero : FixedText (ascii "0.000000") :=
    ⟨[], ascii "0", ascii "000000", rfl, Or.inl rfl, ⟨by decide, by decide +kernel, by decide⟩, rfl,
      by decide +kernel⟩
  exact ⟨fun _ _ => zero, fun _ _ => zero⟩

/-- A memory of zeros. -/
def zeros : Mem := fun _ => 0

/-- A count is reported, if its only field can be written. -/
theorem metaWriteJson_reports_count : Reports zeroFloats reportRegistry zeros 8 2 (-1) ↔
    ∃ descriptor, metaGetDescriptor reportRegistry 2 = some descriptor ∧
      WritableFields zeroFloats reportRegistry zeros descriptor.fields 8 := by
  refine metaWriteJson_reports_iff zeroFloats_printsFixed reportRegistry_names fun descriptor found type a met => ?_
  -- there is nothing but an integer
  have number : ∀ type, metaGetDescriptor reportRegistry 1 = some type → type.typeClass = .primitive ∧
      type.primitive = .i8 := by
    have all : ∀ type ∈ reportListed, type.id = 1 → type.typeClass = .primitive ∧ type.primitive = .i8 := by
      decide +kernel
    exact fun type found => all type (metaGetDescriptor_some reportRegistry_lists found).1
      (metaGetDescriptor_some reportRegistry_lists found).2
  have fields : ∀ field ∈ descriptor.fields, field.type = 1 := by
    have all : ∀ type ∈ reportListed, type.id = 2 → ∀ field ∈ type.fields, field.type = 1 := by
      decide +kernel
    exact all descriptor (metaGetDescriptor_some reportRegistry_lists found).1
      (metaGetDescriptor_some reportRegistry_lists found).2
  cases met with
  | here member at_ met =>
    rw [fields _ member] at met
    obtain ⟨kind, which⟩ := number _ met
    unfold CleanLeaf
    rw [kind, which]
    trivial
  | deeper member at_ met kind =>
    rw [fields _ member] at met
    rw [(number _ met).1] at kind
    cases kind

/-- **Objects that are not reported**: one without fields is written with a comma too many, and one with a
field of no registered type without the value, both with the code 0. -/
theorem metaWriteJson_unreported :
    (metaWriteJson zeroFloats 1 reportRegistry zeros 8 3 (-1) =
        some (0, ascii "\x7b\"--vd-meta-type-name--\":\"Empty\",\x7d") ∧
      ¬ Reports zeroFloats reportRegistry zeros 8 3 (-1)) ∧
    (metaWriteJson zeroFloats 1 reportRegistry zeros 8 4 (-1) =
        some (0, ascii "\x7b\"--vd-meta-type-name--\":\"Holder\",\"held\":\x7d") ∧
      ¬ Reports zeroFloats reportRegistry zeros 8 4 (-1)) := by
  refine ⟨⟨by decide +kernel, ?_⟩, by decide +kernel, ?_⟩
  · rintro ⟨fuel, code, text, wrote, success, -⟩
    have empty : metaGetDescriptor reportRegistry 3 =
        some ⟨ascii "Empty", .object, 1, 3, .i8, [], .cstring⟩ :=
      reportRegistry_found ⟨ascii "Empty", .object, 1, 3, .i8, [], .cstring⟩
        (.tail _ (.tail _ (.head _)))
    rw [metaWriteJson_text empty] at wrote
    obtain ⟨rfl, rfl⟩ := Prod.mk.inj (Option.some.inj wrote)
    have broken : placeBehind .hungry (objectFields (-1) (ascii "Empty") []) = .broken := by decide +kernel
    have read := (success rfl).place
    rw [broken] at read
    cases read
  · rintro ⟨fuel, code, text, wrote, -, failure⟩
    obtain ⟨value, -, same⟩ := Option.map_eq_some_iff.mp wrote
    have holder : metaGetDescriptor reportRegistry 4 =
        some ⟨ascii "Holder", .object, 1, 4, .i8, [⟨ascii "held", 9, 0, 0, 0, none⟩], .cstring⟩ :=
      reportRegistry_found ⟨ascii "Holder", .object, 1, 4, .i8, [⟨ascii "held", 9, 0, 0, 0, none⟩], .cstring⟩
        (.tail _ (.tail _ (.tail _ (.head _))))
    have missing : metaGetDescriptor reportRegistry 9 = none := by decide +kernel
    exact failure (Or.inr ⟨_, holder, .field List.mem_cons_self missing⟩) (Prod.mk.inj same).1.symm

end Vaudou
