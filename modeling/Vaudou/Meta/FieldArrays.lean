/-
**The accessors of an array field.**

`vd_meta_field_array_add`, `len`, `set` and `get` are to be one interface of two layouts: a fixed array in
the object, and an intrusive array that the object points to. `FieldArrayState` is an object that is used
through them, with the contents that an array would have: an add appends the bytes of the new element, a
set replaces those of one. `FieldArray.Behaves` says that `len` and `get` give back these contents.

* `fieldArray_behaves_iff` — for a field with one of the two flags the accessors behave as an array
  throughout a run exactly if the array is empty throughout: `len` and `set` leave at once unless both flags
  are set, and `get` is null for an intrusive array.
-/

import Vaudou.Foundation.Run
import Vaudou.Meta.Appending
import Vaudou.Meta.Parser

namespace Vaudou

open Vaudou.Memory Vaudou.Run Vaudou.Text

section Accessors

variable (reg : MetaRegistry) (descriptor : MetaDescriptor) (field : MetaField)

/-- `&registry->intrusive_array_props`, or the field's own where those are set. -/
def fieldArrayProps : IntrusiveArrayProps := field.intrusiveProps.getD reg.props

/-- `vd_meta_field_array_add`: the heap, and where the new element is; null for another field. -/
def metaFieldArrayAdd (heap : BlockHeap) (object : Nat) : Option (BlockHeap × Nat) :=
  if field.isIntrusiveArray then
    let location := object + field.offset
    let l := (fieldArrayProps reg field).len heap.mem (heap.mem.readNat location 8)
    ((fieldArrayProps reg field).add heap location descriptor.size).map fun heap =>
      (heap, heap.mem.readNat location 8 + l * descriptor.size)
  else some (heap, 0)

/-- `vd_meta_field_array_len`. -/
def metaFieldArrayLen (mem : Mem) (object : Nat) : Nat :=
  if !field.isIntrusiveArray || !field.isFixedArray then 0
  else if field.isFixedArray then field.fixedArrayLen
  else (fieldArrayProps reg field).len mem (mem.readNat (object + field.offset) 8)

/-- `vd_meta_field_array_set`: `item_location` is computed, and nothing is stored there. -/
def metaFieldArraySet (heap : BlockHeap) (i object _newValue : Nat) : BlockHeap :=
  if !field.isIntrusiveArray || !field.isFixedArray then heap
  else
    let _itemLocation :=
      if field.isFixedArray then object + field.offset + i * descriptor.size
      else heap.mem.readNat (object + field.offset) 8 + i * descriptor.size
    heap

/-- `vd_meta_field_array_get`: null for a field that is no fixed array. -/
def metaFieldArrayGet (i object : Nat) : Nat :=
  if !field.isFixedArray then 0 else object + field.offset + i * descriptor.size

/-- The parser adds its elements in the same way. -/
theorem fieldArrayAdd_eq (P : MetaParser) {heap : BlockHeap} {object : Nat}
    (intrusive : field.isIntrusiveArray = true) :
    fieldArrayAdd P field descriptor.size heap object = metaFieldArrayAdd P.reg descriptor field heap object :=
  (if_pos intrusive).symm

end Accessors

/-! ### Runs of the accessors -/

/-- What a client does to a field array: it adds an element, or sets one to the bytes at `newValue`. -/
inductive FieldArrayOp where
  | add
  | set (i newValue : Nat)
deriving DecidableEq, Repr

/-- An object that is used through the accessors, and the elements that its array should have. -/
structure FieldArrayState where
  heap : BlockHeap
  contents : List (List UInt8)

namespace FieldArray

variable (reg : MetaRegistry) (descriptor : MetaDescriptor) (field : MetaField) (object : Nat)

/-- An object that was not used yet: a fixed array holds what its bytes are. -/
def start (heap : BlockHeap) : FieldArrayState where
  heap := heap
  contents :=
    if field.isFixedArray then (List.range field.fixedArrayLen).map fun i =>
      heap.mem.load (object + field.offset + i * descriptor.size) descriptor.size
    else []

/-- One operation. Elements are added to intrusive arrays only, and set in the range only. -/
def step (s : FieldArrayState) : FieldArrayOp → Option FieldArrayState
  | .add =>
    if field.isIntrusiveArray then
      (metaFieldArrayAdd reg descriptor field s.heap object).map fun added =>
        ⟨added.1, s.contents ++ [added.1.mem.load added.2 descriptor.size]⟩
    else none
  | .set i newValue =>
    if i < s.contents.length then
      some ⟨metaFieldArraySet descriptor field s.heap i object newValue,
        s.contents.set i (s.heap.mem.load newValue descriptor.size)⟩
    else none

/-- **The accessors behave as an array**: they give back the length and every element. -/
def Behaves (s : FieldArrayState) : Prop :=
  metaFieldArrayLen reg field s.heap.mem object = s.contents.length ∧
    ∀ i value, s.contents[i]? = some value → metaFieldArrayGet descriptor field i object ≠ 0 ∧
      s.heap.mem.load (metaFieldArrayGet descriptor field i object) descriptor.size = value

/-- No element: nothing of a fixed array is declared, or nothing was added to an intrusive one. -/
def Empty (field : MetaField) (ops : List FieldArrayOp) : Prop :=
  if field.isFixedArray then field.fixedArrayLen = 0 else FieldArrayOp.add ∉ ops

section Runs

variable {reg descriptor field object} {s s' : FieldArrayState} {ops : List FieldArrayOp}

/-- One operation: an add makes the array longer, a set does not. -/
theorem step_length {op : FieldArrayOp} (stepped : step reg descriptor field object s op = some s') :
    s'.contents.length = s.contents.length + [op].count .add := by
  cases op with
  | add =>
    obtain ⟨-, added⟩ := Option.ite_none_right_eq_some.mp stepped
    obtain ⟨added, -, rfl⟩ := Option.map_eq_some_iff.mp added
    exact List.length_append
  | set i newValue =>
    obtain ⟨-, same⟩ := Option.ite_none_right_eq_some.mp stepped
    cases same
    exact List.length_set

/-- **A run**: the array is as long as there were adds. -/
theorem run_length : ∀ {ops : List FieldArrayOp} {s : FieldArrayState},
    run (step reg descriptor field object) s ops = some s' →
      s'.contents.length = s.contents.length + ops.count .add
  | [], s, ran => by
    cases ran
    rfl
  | op :: rest, s, ran => by
    obtain ⟨next, stepped, later⟩ := run_cons_some.mp ran
    have first := step_length stepped
    have whole : (op :: rest).count .add = [op].count .add + rest.count .add :=
      @List.count_append _ _ FieldArrayOp.add [op] rest
    rw [run_length later, first, whole, Nat.add_assoc]

/-- Elements are not added to a fixed array. -/
theorem run_no_add (fixed : field.isIntrusiveArray = false) : ∀ {ops : List FieldArrayOp}
    {s : FieldArrayState}, run (step reg descriptor field object) s ops = some s' →
      FieldArrayOp.add ∉ ops
  | [], _, _ => List.not_mem_nil
  | op :: rest, s, ran => by
    obtain ⟨next, stepped, later⟩ := run_cons_some.mp ran
    refine List.not_mem_cons_of_ne_of_not_mem ?_ (run_no_add fixed later)
    rintro rfl
    rw [step, fixed] at stepped
    cases stepped

/-- Without an element there is nothing to set. -/
theorem run_empty (empty : s.contents = []) (noAdd : FieldArrayOp.add ∉ ops)
    (ran : run (step reg descriptor field object) s ops = some s') : ops = [] := by
  cases ops with
  | nil => rfl
  | cons op rest =>
    obtain ⟨next, stepped, -⟩ := run_cons_some.mp ran
    cases op with
    | add => exact absurd List.mem_cons_self noAdd
    | set i newValue =>
      rw [step, empty] at stepped
      cases stepped

variable (reg) in
/-- **The length** of a field with one of the two flags is 0, whatever it holds. -/
theorem len_zero (exactly : field.isFixedArray = !field.isIntrusiveArray) (mem : Mem) :
    metaFieldArrayLen reg field mem object = 0 := by
  refine if_pos ?_
  rw [exactly]
  cases field.isIntrusiveArray <;> rfl

/-- **The accessors behave as an array** throughout a run exactly if the array is empty throughout. -/
theorem fieldArray_behaves_iff {heap : BlockHeap} {ops : List FieldArrayOp} {s : FieldArrayState}
    (exactly : field.isFixedArray = !field.isIntrusiveArray)
    (ran : run (step reg descriptor field object) (start descriptor field object heap) ops = some s) :
    Throughout (step reg descriptor field object) (Behaves reg descriptor field object)
      (start descriptor field object heap) ops ↔ Empty field ops := by
  have length := run_length ran
  constructor
  · intro throughout
    have none_ : s.contents.length = 0 :=
      (throughout.all ran).1.symm.trans (len_zero reg exactly s.heap.mem)
    rw [none_] at length
    unfold Empty
    split
    next fixed =>
      rw [start, if_pos fixed, List.length_map, List.length_range] at length
      omega
    next =>
      refine List.count_eq_zero.mp ?_
      omega
  · intro empty
    have noAdd : FieldArrayOp.add ∉ ops := by
      by_cases fixed : field.isFixedArray = true
      · refine run_no_add ?_ ran
        rw [fixed] at exactly
        simpa using exactly.symm
      · rwa [Empty, if_neg fixed] at empty
    have nothing : (start descriptor field object heap).contents = [] := by
      rw [start]
      split
      next fixed =>
        rw [Empty, if_pos fixed] at empty
        rw [empty]
        rfl
      next => rfl
    obtain rfl := run_empty nothing noAdd ran
    refine ⟨(len_zero reg exactly _).trans ?_, fun i value found => ?_⟩
    · rw [nothing]
      rfl
    · rw [nothing] at found
      cases found

end Runs

/-- A field that is a fixed array of one `uint8_t`. -/
def oneByte : MetaField := ⟨ascii "a", 2, 0, 1, 1, none⟩

/-- An object at 8 and a value of 7 at 16. -/
def oneByteHeap : BlockHeap := ⟨fun x => if x = 16 then 7 else 0, [(8, 1), (16, 1)]⟩

/-- The array of one element is not empty: its accessors do not behave as an array. -/
theorem fieldArray_behaves_oneByte :
    Throughout (step (metaEmpty (.default .bump)) (defaultPrimitive "uint8_t" 1 .u8) oneByte 8)
        (Behaves (metaEmpty (.default .bump)) (defaultPrimitive "uint8_t" 1 .u8) oneByte 8)
        (start (defaultPrimitive "uint8_t" 1 .u8) oneByte 8 oneByteHeap) [.set 0 16] ↔
      Empty oneByte [.set 0 16] :=
  fieldArray_behaves_iff (s := ⟨oneByteHeap, [[7]]⟩) rfl rfl

/-- **The value that is set is lost**: the array should hold 7, its length is 0, and the byte is 0. -/
theorem value_set_lost :
    run (step (metaEmpty (.default .bump)) (defaultPrimitive "uint8_t" 1 .u8) oneByte 8)
        (start (defaultPrimitive "uint8_t" 1 .u8) oneByte 8 oneByteHeap) [.set 0 16] =
          some ⟨oneByteHeap, [[7]]⟩ ∧
      metaFieldArrayLen (metaEmpty (.default .bump)) oneByte oneByteHeap.mem 8 = 0 ∧
      oneByteHeap.mem.load (metaFieldArrayGet (defaultPrimitive "uint8_t" 1 .u8) oneByte 0 8) 1 = [0] ∧
      ¬ Behaves (metaEmpty (.default .bump)) (defaultPrimitive "uint8_t" 1 .u8) oneByte 8
        ⟨oneByteHeap, [[7]]⟩ :=
  ⟨rfl, rfl, rfl, fun behaves => absurd behaves.1 (by decide)⟩

end FieldArray

end Vaudou
