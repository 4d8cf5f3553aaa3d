/-
**The text of an intrusive array.**

`arrayText` is the text of an array with given values. The writer writes it for the values of the elements
that stand behind the pointer, as many as the registry's length procedure says
(`writeJsonField_intrusive`); `vd_meta_field_array_add` uses the procedures of the field where it has its
own.

* `writeJsonField_lists_iff` — after any number of elements were added through `vd_meta_field_array_add`
  with procedures of the field, and filled, the text lists exactly these elements if and only if the
  registry's length procedure counts them too.
-/

import Vaudou.Meta.FieldArrays

namespace Vaudou

open Vaudou.Memory Vaudou.Text

/-- The values of an array, the last without a comma behind it. -/
def elementsText (pretty : Int) : List (List UInt8) → List UInt8
  | [] => []
  | value :: rest =>
    spaces pretty ++ value ++ (if rest.isEmpty then [] else ascii ",") ++ ifPretty pretty (ascii "\n") ++
      elementsText pretty rest

/-- The text of an array. -/
def arrayText (pretty : Int) (values : List (List UInt8)) : List UInt8 :=
  ifPretty pretty (ascii "\n") ++ spaces pretty ++ ascii "[" ++ ifPretty pretty (ascii "\n") ++
    elementsText (deeper pretty) values ++ spaces pretty ++ ascii "]"

/-- The procedure writes the values for the addresses that are `size` bytes apart. -/
def WriteProc.WritesAll (write : WriteProc) (base size type : Nat) (pretty : Int)
    (values : List (List UInt8)) : Prop :=
  ∀ i value, values[i]? = some value → (write (base + i * size) type pretty).map Prod.snd = some value

section Texts

variable {reg : MetaRegistry} {mem : Mem} {write : WriteProc} {base size type : Nat} {pretty : Int}
  {values values' : List (List UInt8)} {text : List UInt8}

/-- The rest of the loop over the elements, from element `k` on. -/
theorem writeElements_rest (len : Nat) : ∀ {values : List (List UInt8)} {k : Nat},
    len = k + values.length → write.WritesAll (base + k * size) size type pretty values →
      ((List.range' k values.length).mapM fun i =>
        (write (base + i * size) type pretty).map fun value => spaces pretty ++ value.2 ++
          (if i < len - 1 then ascii "," else []) ++ ifPretty pretty (ascii "\n")).map List.flatten =
        some (elementsText pretty values)
  | [], _, _, _ => rfl
  | value :: rest, k, whole, wrote => by
    have here := wrote 0 value rfl
    rw [Nat.zero_mul, Nat.add_zero] at here
    obtain ⟨first, called, rfl⟩ := Option.map_eq_some_iff.mp here
    have later : write.WritesAll (base + (k + 1) * size) size type pretty rest := by
      intro i value found
      have next := wrote (i + 1) value found
      rwa [show base + k * size + (i + 1) * size = base + (k + 1) * size + i * size by ring] at next
    rw [List.length_cons] at whole
    have ih := writeElements_rest len (by omega) later
    obtain ⟨texts, all, flat⟩ := Option.map_eq_some_iff.mp ih
    have comma : (if k < len - 1 then ascii "," else []) =
        if rest.isEmpty then [] else ascii "," := by
      cases rest with
      | nil => exact if_neg (by rw [List.length_nil] at whole; omega)
      | cons _ _ => exact if_pos (by rw [List.length_cons] at whole; omega)
    rw [List.length_cons, List.range'_succ, List.mapM_cons, called, all, elementsText, ← flat, ← comma]
    rfl

/-- **The loop over the elements** writes the values with commas between them. -/
theorem writeElements_text (wrote : write.WritesAll base size type pretty values) :
    writeElements write base size type values.length pretty = some (elementsText pretty values) := by
  have whole := writeElements_rest values.length (Nat.zero_add _).symm
    (by rwa [Nat.zero_mul, Nat.add_zero] : write.WritesAll (base + 0 * size) size type pretty values)
  rw [← List.range_eq_range'] at whole
  exact whole

theorem writeArray_text {descriptor : MetaDescriptor}
    (found : metaGetDescriptor reg type = some descriptor)
    (wrote : write.WritesAll base descriptor.size type (deeper pretty) values) :
    writeArray reg write base type values.length pretty = some (arrayText pretty values) := by
  unfold writeArray
  simp only [found, reduceCtorEq, and_false, if_false, Option.elim_some]
  rw [writeElements_text wrote]
  rfl

/-- Where all elements are written, each one is. -/
theorem writeElements_values {len : Nat}
    (wrote : writeElements write base size type len pretty = some text) :
    ∃ values, values.length = len ∧ write.WritesAll base size type pretty values := by
  have all : ∀ {indices : List Nat} {texts : List (List UInt8)},
      (indices.mapM fun i => (write (base + i * size) type pretty).map fun value =>
        spaces pretty ++ value.2 ++ (if i < len - 1 then ascii "," else []) ++
          ifPretty pretty (ascii "\n")) = some texts →
      ∀ i ∈ indices, ((write (base + i * size) type pretty).map Prod.snd).isSome = true := by
    intro indices
    induction indices with
    | nil => exact fun _ i member => absurd member List.not_mem_nil
    | cons first rest ih =>
      intro texts wrote i member
      simp only [List.mapM_cons, Option.bind_eq_bind, Option.bind_eq_some_iff,
        Option.map_eq_some_iff] at wrote
      obtain ⟨text, ⟨value, called, -⟩, later, laterWrote, -⟩ := wrote
      rcases List.mem_cons.mp member with rfl | member
      · rw [called]
        rfl
      · exact ih laterWrote i member
  obtain ⟨texts, wrote, -⟩ := Option.map_eq_some_iff.mp wrote
  refine ⟨(List.range len).map fun i => ((write (base + i * size) type pretty).map Prod.snd).getD [],
    by rw [List.length_map, List.length_range], fun i value found => ?_⟩
  rw [List.getElem?_map, Option.map_eq_some_iff] at found
  obtain ⟨j, place, rfl⟩ := found
  obtain ⟨inside, same⟩ := List.getElem?_eq_some_iff.mp place
  rw [List.getElem_range] at same
  subst same
  obtain ⟨value, called⟩ := Option.isSome_iff_exists.mp (all wrote i (List.mem_of_getElem? place))
  rw [called]
  rfl

/-- **What the writer writes for an array** is the text of the values of its elements. -/
theorem writeArray_values {descriptor : MetaDescriptor} {len : Nat}
    (found : metaGetDescriptor reg type = some descriptor)
    (wrote : writeArray reg write base type len pretty = some text) :
    ∃ values, values.length = len ∧ text = arrayText pretty values ∧
      write.WritesAll base descriptor.size type (deeper pretty) values := by
  have inner := wrote
  unfold writeArray at inner
  simp only [found, reduceCtorEq, and_false, if_false, Option.elim_some] at inner
  obtain ⟨elements, inner, -⟩ := Option.map_eq_some_iff.mp inner
  obtain ⟨values, rfl, all⟩ := writeElements_values inner
  exact ⟨values, rfl, Option.some.inj (wrote.symm.trans (writeArray_text found all)), all⟩

/-- **The text of an intrusive array field**: the registry's length procedure says how many elements it
lists, also where the field has procedures of its own. -/
theorem writeJsonField_intrusive {field : MetaField} {object : Nat}
    (notFixed : field.isFixedArray = false) (intrusive : field.isIntrusiveArray = true) :
    writeJsonField reg mem write object field pretty =
      (writeArray reg write (mem.readNat (object + field.offset) 8) field.type
        (reg.props.len mem (mem.readNat (object + field.offset) 8)) pretty).map (0, ·) := by
  rw [writeJsonField, if_neg (by rw [notFixed]; exact Bool.false_ne_true), if_pos intrusive]

/-- A field is written in the same way with more fuel. -/
theorem writeJsonField_more {floats : CFloat} {fuel object : Nat} {field : MetaField}
    {value : Int × List UInt8}
    (wrote : writeJsonField reg mem (writeJsonDescriptor floats reg mem fuel) object field pretty =
      some value) :
    writeJsonField reg mem (writeJsonDescriptor floats reg mem (fuel + 1)) object field pretty = some value :=
  writeJsonField_extends writeJsonDescriptor_extends wrote

/-! ### Two arrays with the same text -/

/-- Behind at least one value, further values take at least a comma. -/
theorem elementsText_append_length (more : List UInt8) (later : List (List UInt8)) :
    ∀ {values : List (List UInt8)}, values ≠ [] →
      (elementsText pretty values).length < (elementsText pretty (values ++ more :: later)).length
  | [value], _ => by
    simp only [elementsText, List.cons_append, List.nil_append, List.isEmpty_nil, List.isEmpty_cons,
      if_true, Bool.false_eq_true, if_false, List.length_append, List.length_nil]
    have comma : (ascii ",").length = 1 := rfl
    omega
  | value :: next :: rest, _ => by
    have ih := elementsText_append_length more later (List.cons_ne_nil next rest)
    have front : ∀ tail, (elementsText pretty (value :: next :: tail)).length =
        (spaces pretty ++ value ++ ascii "," ++ ifPretty pretty (ascii "\n")).length +
          (elementsText pretty (next :: tail)).length := fun _ => List.length_append
    rw [List.cons_append, List.cons_append, front, front]
    exact Nat.add_lt_add_left ih _

/-- A text without bytes between its brackets is minified, and has at most an empty value. -/
theorem elementsText_eq_nil : elementsText pretty values = [] ↔
    values = [] ∨ (pretty < 0 ∧ values = [[]]) := by
  constructor
  · intro empty
    match values, empty with
    | [], _ => exact Or.inl rfl
    | value :: next :: rest, empty =>
      have := congrArg List.length empty
      simp [elementsText, ascii] at this
    | [value], empty =>
      simp only [elementsText, List.append_eq_nil_iff, List.isEmpty_nil, if_true] at empty
      obtain ⟨⟨⟨⟨-, rfl⟩, -⟩, newline⟩, -⟩ := empty
      refine Or.inr ⟨?_, rfl⟩
      by_contra pretty_
      rw [ifPretty, if_pos (not_lt.mp pretty_)] at newline
      cases newline
  · rintro (rfl | ⟨minified, rfl⟩)
    · rfl
    · have none_ : spaces pretty = [] := by
        rw [spaces, Int.toNat_of_nonpos minified.le]
        rfl
      rw [elementsText, none_, ifPretty, if_neg (not_le.mpr minified)]
      rfl

/-- **One array that starts with the values of another**: their texts are the same only if the arrays
are, or if one is empty and the other has an empty value in minified text. -/
theorem arrayText_append_inj (same : arrayText pretty (values ++ values') = arrayText pretty values) :
    values' = [] ∨ (pretty < 0 ∧ values = [] ∧ values' = [[]]) := by
  have inner : elementsText (deeper pretty) (values ++ values') = elementsText (deeper pretty) values := by
    unfold arrayText at same
    simpa only [List.append_assoc, List.append_cancel_left_eq, List.append_cancel_right_eq] using same
  match values', values with
  | [], _ => exact Or.inl rfl
  | more :: later, [] =>
    rcases elementsText_eq_nil.mp inner with none_ | ⟨minified, one⟩
    · cases none_
    · refine Or.inr ⟨?_, rfl, one⟩
      unfold deeper at minified
      split at minified <;> omega
  | more :: later, value :: rest =>
    have longer : (elementsText (deeper pretty) (value :: rest)).length <
        (elementsText (deeper pretty) (value :: rest ++ more :: later)).length :=
      elementsText_append_length more later (List.cons_ne_nil value rest)
    rw [inner] at longer
    exact absurd longer (lt_irrefl _)

end Texts

/-! ### Elements that are added and filled -/

/-- A type without a JSON value: the writer writes nothing for it. -/
def MetaDescriptor.Valueless (descriptor : MetaDescriptor) : Prop :=
  descriptor.typeClass = .array ∨ (descriptor.typeClass = .string ∧ descriptor.string = .slice)

/-- `printf` writes at least a character for a floating point number. -/
structure CFloat.Prints (floats : CFloat) : Prop where
  float : ∀ bits, floats.printFloat bits ≠ []
  double : ∀ bits, floats.printDouble bits ≠ []

/-- **Elements that were added to a field**: each through `vd_meta_field_array_add`, and filled before
the next; whoever fills it changes nothing else that was handed out. -/
inductive AppendedElements (reg : MetaRegistry) (descriptor : MetaDescriptor) (field : MetaField)
    (object : Nat) (start : BlockHeap) : List (List UInt8) → BlockHeap → Prop where
  | start : AppendedElements reg descriptor field object start [] start
  | append {elements heap added place filled} :
      AppendedElements reg descriptor field object start elements heap →
      metaFieldArrayAdd reg descriptor field heap object = some (added, place) →
      added.Grown filled place descriptor.size →
      AppendedElements reg descriptor field object start
        (elements ++ [filled.mem.load place descriptor.size]) filled

/-- **The text of the field lists the elements**: they stand in the array one behind the other, and the
text is that of an array with their values. -/
def ListsElements (floats : CFloat) (reg : MetaRegistry) (descriptor : MetaDescriptor) (field : MetaField)
    (object : Nat) (pretty : Int) (mem : Mem) (elements : List (List UInt8)) : Prop :=
  (∀ i element, elements[i]? = some element →
    mem.load (elementAt mem (object + field.offset) descriptor.size i) descriptor.size = element) ∧
  ∃ fuel values, values.length = elements.length ∧
    (writeJsonDescriptor floats reg mem fuel).WritesAll (mem.readNat (object + field.offset) 8)
      descriptor.size field.type (deeper pretty) values ∧
    writeJsonField reg mem (writeJsonDescriptor floats reg mem fuel) object field pretty =
      some (0, arrayText pretty values)

section Appended

variable {floats : CFloat} {reg : MetaRegistry} {mem : Mem} {descriptor : MetaDescriptor}
  {field : MetaField} {object size type fuel base : Nat} {pretty : Int} {start heap : BlockHeap}
  {elements values values' : List (List UInt8)} {props : IntrusiveArrayProps} {room : Nat → Prop}

theorem primitiveText_ne_nil (prints : floats.Prints) (mem : Mem) (object : Nat) :
    ∀ type, primitiveText floats mem object type ≠ [] := by
  have first : ∀ {text : List UInt8}, text ≠ [] → snprintf32 text ≠ [] := by
    intro text some_ none_
    rcases List.take_eq_nil_iff.mp none_ with zero | nil
    · cases zero
    · exact some_ nil
  have int : ∀ value, decimalInt value ≠ [] := fun value =>
    List.length_pos_iff.mp decimalInt_length_pos
  intro type
  cases type with
  | i8 | i16 | i32 | i64 => exact first (int _)
  | u8 | u16 | u32 | u64 => exact first decimal_ne_nil
  | f32 => exact first (prints.float _)
  | f64 => exact first (prints.double _)
  | char8 => exact List.cons_ne_nil _ _

/-- **Nothing is written** only for a type without a value. -/
theorem valueless_of_written (prints : floats.Prints) (found : metaGetDescriptor reg type = some descriptor)
    (wrote : (writeJsonDescriptor floats reg mem fuel base type pretty).map Prod.snd = some []) :
    descriptor.Valueless := by
  cases fuel with
  | zero => cases wrote
  | succ fuel =>
    rw [writeJsonDescriptor, found] at wrote
    cases kind : descriptor.typeClass with
    | array => exact Or.inl kind
    | primitive =>
      simp only [kind] at wrote
      exact absurd (Option.some.inj wrote) (primitiveText_ne_nil prints _ _ _)
    | string =>
      cases slice : descriptor.string with
      | slice => exact Or.inr ⟨kind, slice⟩
      | cstring =>
        simp only [kind, slice, Option.map_map, Option.map_eq_some_iff] at wrote
        obtain ⟨content, -, nothing⟩ := wrote
        cases nothing
    | object =>
      simp only [kind, writeJsonObject, found, Option.map_map, Option.map_eq_some_iff] at wrote
      obtain ⟨fields, -, nothing⟩ := wrote
      simp [ascii] at nothing

/-- A type without a value writes nothing. -/
theorem Valueless.writes (valueless : descriptor.Valueless)
    (found : metaGetDescriptor reg type = some descriptor) (fuel base : Nat) (pretty : Int) :
    (writeJsonDescriptor floats reg mem (fuel + 1) base type pretty).map Prod.snd = some [] := by
  rw [writeJsonDescriptor, found]
  rcases valueless with kind | ⟨kind, slice⟩
  · simp only [kind]
    rfl
  · simp only [kind, slice]
    rfl

/-- Two lists of values at the same addresses: one starts with the other. -/
theorem WriteProc.WritesAll.prefix_ {write : WriteProc} (short : values.length ≤ values'.length)
    (wrote : write.WritesAll base size type pretty values)
    (wrote' : write.WritesAll base size type pretty values') : ∃ rest, values' = values ++ rest := by
  refine ⟨values'.drop values.length, ?_⟩
  have front : values = values'.take values.length := by
    refine List.ext_getElem (by rw [List.length_take]; omega) fun i inside inside' => ?_
    rw [List.getElem_take]
    have first := wrote i values[i] (List.getElem?_eq_getElem inside)
    have second := wrote' i _ (List.getElem?_eq_getElem (by omega))
    exact Option.some.inj (first.symm.trans second)
  calc values' = values'.take values.length ++ values'.drop values.length := (List.take_append_drop _ _).symm
    _ = values ++ values'.drop values.length := by rw [← front]

/-- **The elements stand in the array** as they were filled, and the procedures of the field hold them. -/
theorem AppendedElements.holds (appends : props.Appends descriptor.size room)
    (own : field.intrusiveProps = some props) (intrusive : field.isIntrusiveArray = true)
    (owned : start.OwnsRange (object + field.offset) 8)
    (null : start.mem.readNat (object + field.offset) 8 = 0)
    (appended : AppendedElements reg descriptor field object start elements heap)
    (roomy : ∀ n, n < elements.length → room n) :
    appends.Holds start heap (object + field.offset) elements.length ∧
      ∀ i element, elements[i]? = some element → heap.mem.load
        (elementAt heap.mem (object + field.offset) descriptor.size i) descriptor.size = element := by
  induction appended with
  | start => exact ⟨appends.start owned null, fun i element found => absurd found (by simp)⟩
  | @append elements heap added place filled before call fill ih =>
    rw [List.length_append, List.length_singleton] at roomy ⊢
    obtain ⟨holds, stand⟩ := ih fun n few => roomy n (by omega)
    rw [metaFieldArrayAdd, if_pos intrusive, fieldArrayProps, own, Option.getD_some] at call
    obtain ⟨added', called, same⟩ := Option.map_eq_some_iff.mp call
    obtain ⟨rfl, rfl⟩ := Prod.mk.inj same
    rw [appends.len holds] at fill ⊢
    obtain ⟨holds', kept⟩ := appends.add holds (roomy _ (Nat.lt_succ_self _)) called
    obtain ⟨holds'', places, others⟩ := appends.filled holds' (Nat.lt_succ_self _) fill
    refine ⟨holds'', fun i element found => ?_⟩
    rcases Nat.lt_or_ge i elements.length with earlier | last
    · rw [List.getElem?_append_left earlier] at found
      rw [others i (by omega) (by omega), kept i earlier]
      exact stand i element found
    · rw [List.getElem?_append_right last] at found
      obtain ⟨here, rfl⟩ := List.getElem?_eq_some_iff.mp found
      obtain rfl : i = elements.length := by
        rw [List.length_singleton] at here
        omega
      rw [places, List.getElem_singleton]
      rfl

/-- **The text of a field with procedures of its own** lists exactly the elements that were added and
filled if and only if the registry's length procedure counts them in the array that the field's
procedures made, unless the elements are at most one of a type without a value. -/
theorem writeJsonField_lists_iff (prints : floats.Prints) (appends : props.Appends descriptor.size room)
    (own : field.intrusiveProps = some props) (notFixed : field.isFixedArray = false)
    (intrusive : field.isIntrusiveArray = true) (found : metaGetDescriptor reg field.type = some descriptor)
    (owned : start.OwnsRange (object + field.offset) 8)
    (null : start.mem.readNat (object + field.offset) 8 = 0)
    (appended : AppendedElements reg descriptor field object start elements heap)
    (roomy : ∀ n, n < elements.length → room n)
    (writable : ∃ fuel values, values.length = elements.length ∧
      (writeJsonDescriptor floats reg heap.mem fuel).WritesAll
        (heap.mem.readNat (object + field.offset) 8) descriptor.size field.type (deeper pretty) values) :
    ListsElements floats reg descriptor field object pretty heap.mem elements ↔
      reg.props.len heap.mem (heap.mem.readNat (object + field.offset) 8) = elements.length ∨
        (descriptor.Valueless ∧ pretty < 0 ∧ elements.length ≤ 1 ∧
          reg.props.len heap.mem (heap.mem.readNat (object + field.offset) 8) ≤ 1) := by
  have stand := (appended.holds appends own intrusive owned null roomy).2
  constructor
  · rintro ⟨-, fuel, values, length, wrote, text⟩
    rw [writeJsonField_intrusive notFixed intrusive] at text
    obtain ⟨text', array, same⟩ := Option.map_eq_some_iff.mp text
    obtain ⟨-, rfl⟩ := Prod.mk.inj same
    obtain ⟨values', length', same, wrote'⟩ := writeArray_values found array
    rw [← length, ← length']
    rcases Nat.le_total values.length values'.length with short | long
    · obtain ⟨rest, rfl⟩ := wrote.prefix_ short wrote'
      rcases arrayText_append_inj same.symm with rfl | ⟨minified, rfl, rfl⟩
      · exact Or.inl (by rw [List.append_nil])
      · have first := wrote' 0 [] rfl
        exact Or.inr ⟨valueless_of_written prints found first, minified, Nat.zero_le _, le_rfl⟩
    · obtain ⟨rest, rfl⟩ := wrote'.prefix_ long wrote
      rcases arrayText_append_inj same with rfl | ⟨minified, rfl, rfl⟩
      · exact Or.inl (by rw [List.append_nil])
      · have first := wrote 0 [] rfl
        exact Or.inr ⟨valueless_of_written prints found first, minified, le_rfl, Nat.zero_le _⟩
  · rintro (counted | ⟨valueless, minified, few, few'⟩)
    · obtain ⟨fuel, values, length, wrote⟩ := writable
      refine ⟨stand, fuel, values, length, wrote, ?_⟩
      rw [writeJsonField_intrusive notFixed intrusive, counted, ← length, writeArray_text found wrote]
      rfl
    · have nothing : ∀ n, (writeJsonDescriptor floats reg heap.mem 1).WritesAll
          (heap.mem.readNat (object + field.offset) 8) descriptor.size field.type (deeper pretty)
          (List.replicate n []) := by
        intro n i value place
        obtain rfl := List.eq_of_mem_replicate (List.mem_of_getElem? place)
        exact Valueless.writes valueless found 0 _ _
      have texts : ∀ {n}, n ≤ 1 → arrayText pretty (List.replicate n []) = arrayText pretty [] := by
        intro n few
        have inner : elementsText (deeper pretty) (List.replicate n []) = [] := by
          refine elementsText_eq_nil.mpr ?_
          rcases Nat.le_one_iff_eq_zero_or_eq_one.mp few with rfl | rfl
          · exact Or.inl rfl
          · refine Or.inr ⟨?_, rfl⟩
            rw [deeper, if_neg (not_le.mpr minified)]
            exact minified
        rw [arrayText, inner]
        rfl
      refine ⟨stand, 1, List.replicate elements.length [], List.length_replicate, nothing _, ?_⟩
      have array := writeArray_text found
        (nothing (reg.props.len heap.mem (heap.mem.readNat (object + field.offset) 8)))
      rw [List.length_replicate] at array
      rw [writeJsonField_intrusive notFixed intrusive, array, texts few, texts few']
      rfl

end Appended

/-! ### An array of bytes -/

/-- Arrays of up to four elements, with the capacity in front of the length. -/
def capacityFirst : IntrusiveArrayProps where
  len mem array := if array = 0 then 0 else mem.readNat (array - 4) 4
  add heap location size :=
    let array := heap.mem.readNat location 8
    if array = 0 then
      (BlockAlloc.bump.alloc heap (size * 4 + 8)).map fun granted =>
        { granted.1 with
          mem := ((granted.1.mem.writeNat granted.2 4 4).writeNat (granted.2 + 4) 4 1).writeNat location 8
            (granted.2 + 8) }
    else
      let len := heap.mem.readNat (array - 4) 4
      if len < 4 then some { heap with mem := heap.mem.writeNat (array - 4) 4 (len + 1) } else none

/-- The bytes are an array of the default procedures, in a registry with other ones. -/
def bytesField : MetaField := ⟨ascii "bytes", 1, 0, 2, 0, some (.default .bump)⟩

def bytesTypes : List MetaDescriptor :=
  [defaultPrimitive "int8_t" 1 .i8, ⟨ascii "Bytes", .object, 8, 0, .i8, [bytesField], .cstring⟩]

def bytesRegistry : MetaRegistry := (metaRegisterAll (metaEmpty capacityFirst) bytesTypes).1

def int8Type : MetaDescriptor := { defaultPrimitive "int8_t" 1 .i8 with id := 1 }

/-- An object without bytes at 8. -/
def bytesHeap : BlockHeap := ⟨fun _ => 0, [(8, 8)]⟩

/-- The object behind one add: the array is at 16, with its elements from 24 on. -/
def grownHeap : BlockHeap :=
  ⟨((((Mem.store (fun _ => 0) 16 []).writeNat 16 4 0).writeNat 20 4 4).writeNat 8 8 24).writeNat 16 4 1,
    [(16, 12), (8, 8)]⟩

/-- The new byte is 7. -/
def sevenHeap : BlockHeap := { grownHeap with mem := grownHeap.mem.store 24 [7] }

theorem bytesRegistry_int8 : metaGetDescriptor bytesRegistry 1 = some int8Type := by
  have lists : bytesRegistry.Lists (metaRegisterAll (metaEmpty capacityFirst) bytesTypes).2 :=
    metaRegisterAll_lists bytesTypes (metaEmpty_lists _)
  have first : int8Type ∈ (metaRegisterAll (metaEmpty capacityFirst) bytesTypes).2 := List.mem_cons_self
  exact metaGetDescriptor_of_mem lists (by decide +kernel) first

theorem sevenHeap_appended : AppendedElements bytesRegistry int8Type bytesField 8 bytesHeap [[7]]
    sevenHeap := by
  have added : metaFieldArrayAdd bytesRegistry int8Type bytesField bytesHeap 8 = some (grownHeap, 24) := rfl
  exact .append .start added (.write (store_changedWithin grownHeap.mem 24 [7]))

/-- A printer of floating point numbers that are 0. -/
def zeroFloats : CFloat :=
  ⟨fun _ => ascii "0.000000", fun _ => ascii "0.000000", fun s => (0, s), fun s => (0, s)⟩

theorem zeroFloats_prints : zeroFloats.Prints :=
  have some_ : ascii "0.000000" ≠ [] := by decide
  ⟨fun _ => some_, fun _ => some_⟩

theorem seven_place : sevenHeap.mem.readNat (8 + bytesField.offset) 8 = 24 := by decide +kernel

theorem seven_text : primitiveText zeroFloats sevenHeap.mem 24 .i8 = ascii "7" := by decide +kernel

/-- The byte is written. -/
theorem seven_written (fuel : Nat) : (writeJsonDescriptor zeroFloats bytesRegistry sevenHeap.mem
    (fuel + 1) 24 1 (-1)).map Prod.snd = some (ascii "7") := by
  rw [writeJsonDescriptor, bytesRegistry_int8]
  exact congrArg some seven_text

/-- The array of 7 is listed if the other length procedure counts one element. -/
theorem writeJsonField_lists_seven :
    ListsElements zeroFloats bytesRegistry int8Type bytesField 8 (-1) sevenHeap.mem [[7]] ↔
      bytesRegistry.props.len sevenHeap.mem (sevenHeap.mem.readNat 8 8) = 1 ∨
        (int8Type.Valueless ∧ (-1 : Int) < 0 ∧ 1 ≤ 1 ∧
          bytesRegistry.props.len sevenHeap.mem (sevenHeap.mem.readNat 8 8) ≤ 1) := by
  have owned : bytesHeap.OwnsRange 8 8 := fun x low high => ⟨(8, 8), List.mem_singleton.mpr rfl, low, high⟩
  refine writeJsonField_lists_iff zeroFloats_prints (defaultAppends .bump 1) rfl rfl
    rfl bytesRegistry_int8 owned (by decide +kernel) sevenHeap_appended ?_ ⟨1, [ascii "7"], rfl, ?_⟩
  · intro n few
    obtain rfl : n = 0 := Nat.lt_one_iff.mp few
    exact ⟨by decide, by decide⟩
  · intro i value place
    obtain ⟨inside, rfl⟩ := List.getElem?_eq_some_iff.mp place
    obtain rfl : i = 0 := Nat.lt_one_iff.mp inside
    rw [seven_place, Nat.zero_mul]
    exact seven_written 0

/-- The text lists as many elements as the capacity. -/
theorem capacity_text : ∀ fuel, writeJsonField bytesRegistry sevenHeap.mem
    (writeJsonDescriptor zeroFloats bytesRegistry sevenHeap.mem (fuel + 1)) 8 bytesField (-1) =
      some (0, ascii "[7,0,0,0]")
  | 0 => by
    have count : bytesRegistry.props.len sevenHeap.mem 24 = 4 := by decide +kernel
    have text : writeArray bytesRegistry (writeJsonDescriptor zeroFloats bytesRegistry sevenHeap.mem 1) 24 1
        4 (-1) = some (ascii "[7,0,0,0]") := by decide +kernel
    rw [writeJsonField_intrusive rfl rfl, seven_place, count]
    exact congrArg (Option.map (0, ·)) text
  | fuel + 1 => writeJsonField_more (capacity_text fuel)

/-- **The capacity is taken for the length**: after one byte was added and filled with 7, the text of the
field has four elements. -/
theorem capacity_written :
    AppendedElements bytesRegistry int8Type bytesField 8 bytesHeap [[7]] sevenHeap ∧
      writeJsonField bytesRegistry sevenHeap.mem (writeJsonDescriptor zeroFloats bytesRegistry sevenHeap.mem 1)
        8 bytesField (-1) = some (0, ascii "[7,0,0,0]") ∧
      ¬ ListsElements zeroFloats bytesRegistry int8Type bytesField 8 (-1) sevenHeap.mem [[7]] := by
  refine ⟨sevenHeap_appended, capacity_text 0, ?_⟩
  rintro ⟨-, fuel, values, length, wrote, text⟩
  obtain ⟨value, rfl⟩ := List.length_eq_one_iff.mp length
  have first := wrote 0 value rfl
  rw [seven_place, Nat.zero_mul] at first
  cases fuel with
  | zero => cases first
  | succ fuel =>
    have digit : ascii "7" = value := Option.some.inj ((seven_written fuel).symm.trans first)
    have same : ascii "[7,0,0,0]" = arrayText (-1) [value] :=
      (Prod.mk.inj (Option.some.inj ((capacity_text fuel).symm.trans text))).2
    rw [← digit] at same
    exact absurd same (by decide)

end Vaudou
