/-
**Elements are parsed into their own place**, where literals are in place.

`ParseCall.Round` is a round of an array literal: element `i` of the literal for a field of the object at
`object`. `ParseCall.ArraysInPlace` says of a run that every element of a fixed array is parsed to
`object + offset + i * size`, that every element of an intrusive array is element `i` of the array whose
pointer is at `object + offset` and stays it, and that no byte outside of the fields that are named is
written.

* `arrays_in_place` — this holds in every run in which every array literal is in place; and it holds in no
  run that parses an element of a fixed array at another offset than 0.
-/

import Vaudou.Meta.ElementPlaces
import Vaudou.Meta.Layouts

namespace Vaudou

open Vaudou.Memory Vaudou.Text Relation

section Rounds

variable (P : MetaParser) (scan parse : UnsetKeys) (start : ParseCall)

/-- A call that is reached. -/
def ParseCall.Reaches (call : ParseCall) : Prop := ReflTransGen (ParseCall.Next P scan parse) start call

/-- **A round of an array literal**: element `i` of the literal for this field of the object at `object`. -/
inductive ParseCall.Round (object : Nat) (of_ : MetaField) : (i : Nat) → BlockHeap → List UInt8 → Prop where
  | first {descriptor heap s heap' text inner} :
      start.Reaches P scan parse (.members descriptor object heap s) →
      ParseCall.Next P scan parse (.members descriptor object heap s)
        (.field of_ heap' text (object + of_.offset)) →
      ParseCall.Next P scan parse (.field of_ heap' text (object + of_.offset))
        (.elements of_ (object + of_.offset) 0 heap' inner) → Round object of_ 0 heap' inner
  | next {i heap s heap' s'} : Round object of_ i heap s →
      ParseCall.Next P scan parse (.elements of_ (object + of_.offset) i heap s)
        (.elements of_ (object + of_.offset) (i + 1) heap' s') → Round object of_ (i + 1) heap' s'

/-- **Elements are parsed into their own place.** -/
structure ParseCall.ArraysInPlace : Prop where
  /-- An element of a fixed array. -/
  fixed : ∀ {object of_ i heap s heap' s' descriptor place}, start.Round P scan parse object of_ i heap s →
    ParseCall.Next P scan parse (.elements of_ (object + of_.offset) i heap s)
      (.fixed of_ i heap' s' (object + of_.offset)) →
    ParseCall.Next P scan parse (.fixed of_ i heap' s' (object + of_.offset))
      (.value of_.type descriptor heap' s' place) →
        place = object + of_.offset + i * descriptor.size
  /-- An element of an intrusive array, before and after it was parsed. -/
  intrusive : ∀ {object of_ i heap s heap' s' granted descriptor place},
    start.Round P scan parse object of_ i heap s →
    ParseCall.Next P scan parse (.elements of_ (object + of_.offset) i heap s)
      (.intrusive of_ heap' s' (object + of_.offset)) →
    ParseCall.Next P scan parse (.intrusive of_ heap' s' (object + of_.offset))
      (.value of_.type descriptor granted s' place) →
        place = elementAt granted.mem (object + of_.offset) descriptor.size i ∧
          ∀ {left rest}, (ParseCall.value of_.type descriptor granted s' place).Completes P parse left rest →
            place = elementAt left.mem (object + of_.offset) descriptor.size i
  /-- The elements that an intrusive array has keep their bytes until the literal ends. -/
  kept : ∀ {object of_ i heap s left rest}, start.Round P scan parse object of_ i heap s →
    of_.isIntrusiveArray = true →
    (ParseCall.elements of_ (object + of_.offset) i heap s).Completes P parse left rest →
      SameElements heap left (object + of_.offset) (P.reg.typeSize of_.type) i
  /-- A value is written to its own bytes. -/
  value : ∀ {type descriptor heap s place left rest},
    start.Reaches P scan parse (.value type descriptor heap s place) →
    (ParseCall.value type descriptor heap s place).Completes P parse left rest →
      heap.Grown left place descriptor.size
  /-- Nothing outside of the fields that are named is written, of the object and of all that was handed out. -/
  frame : ∀ {descriptor object heap s left rest},
    start.Reaches P scan parse (.members descriptor object heap s) →
    (ParseCall.members descriptor object heap s).Completes P parse left rest →
      ∀ x, heap.Owns x → (∀ of_, ParseCall.Names P scan parse descriptor object heap s of_ →
        x < object + of_.offset ∨ object + of_.offset + of_.extent P.reg ≤ x) → left.mem x = heap.mem x

variable {P scan parse start} {object i : Nat} {of_ : MetaField} {heap : BlockHeap} {s : List UInt8}

/-- A round is reached. -/
theorem ParseCall.Round.reaches (round : start.Round P scan parse object of_ i heap s) :
    start.Reaches P scan parse (.elements of_ (object + of_.offset) i heap s) := by
  induction round with
  | first reached field literal => exact (reached.tail field).tail literal
  | next _ next ih => exact ih.tail next

/-- **In a run in which every literal is in place** the elements are. -/
theorem ParseCall.Placed.arrays (floats : P.floats.Advances) (laid : P.Laid) (placed : start.Placed laid)
    (inPlace : ∀ call, start.Reaches P scan parse call → call.InPlace P.reg laid.room) :
    start.ArraysInPlace P scan parse where
  fixed round _ next := by
    have offset := (inPlace _ round.reaches).1
    cases next with
    | fixedValue => rw [offset, Nat.add_zero]
  intrusive round step next := by
    have here := inPlace _ round.reaches
    have elements := placed.reached floats inPlace round.reaches
    have value := placed.reached floats inPlace ((round.reaches.tail step).tail next)
    cases step with
    | intrusive parsed intrusive =>
      rw [fixedPart_plain (laid.exclusive elements.1 intrusive)] at parsed
      cases parsed
      obtain ⟨base, holds⟩ := elements.2.2 intrusive
      cases next with
      | added found added =>
        obtain ⟨after, -, at_⟩ := holds.added elements.1 intrusive found here.1 (here.2 intrusive).1 added
        refine ⟨at_, fun completes => ?_⟩
        have grown : BlockHeap.Grown _ _ _ _ := ParseCall.Placed.leaves floats _ (fun later rest =>
          inPlace later (((round.reaches.tail (.intrusive (fixedPart_plain (laid.exclusive elements.1 intrusive))
            intrusive)).tail (.added found added)).trans rest)) value completes
        rw [at_] at grown
        exact at_.trans ((after.filled elements.1 intrusive found (Nat.lt_succ_self _) grown).2.1 _).symm
  kept round intrusive completes := by
    obtain ⟨has, -, array⟩ := placed.reached floats inPlace round.reaches
    obtain ⟨base, holds⟩ := array intrusive
    obtain ⟨-, appended⟩ := ParseCall.Placed.leaves floats _ (fun later rest =>
      inPlace later (round.reaches.trans rest)) (placed.reached floats inPlace round.reaches) completes
    obtain ⟨n, -, appended⟩ := appended intrusive
    exact (appended base holds).2
  value reached completes :=
    ParseCall.Placed.leaves floats _ (fun later rest => inPlace later (reached.trans rest))
      (placed.reached floats inPlace reached) completes
  frame reached completes :=
    (ParseCall.Placed.leaves floats _ (fun later rest => inPlace later (reached.trans rest))
      (placed.reached floats inPlace reached) completes).2

/-- **Elements are parsed into their own place** in every run whose array literals are in place; and an
element of a fixed array is parsed elsewhere wherever the offset is not 0. -/
theorem arrays_in_place (floats : P.floats.Advances) (laid : P.Laid) (scan parse : UnsetKeys) (expected : Nat)
    (heap : BlockHeap) (json : List UInt8) :
    ((∀ call, (ParseCall.document expected heap json).Reaches P scan parse call →
        call.InPlace P.reg laid.room) →
      (ParseCall.document expected heap json).ArraysInPlace P scan parse) ∧
    ((ParseCall.document expected heap json).ArraysInPlace P scan parse →
      ∀ object of_ i heap' s descriptor,
        (ParseCall.document expected heap json).Round P scan parse object of_ i heap' s →
        of_.isFixedArray = true → i < of_.fixedArrayLen →
        metaGetDescriptor P.reg of_.type = some descriptor → of_.offset = 0) := by
  refine ⟨ParseCall.Placed.arrays floats laid trivial, ?_⟩
  intro arrays object of_ i heap' s descriptor round fixed inside found
  have place := arrays.fixed round (.fixed fixed) (.fixedValue inside found)
  omega

/-! ### Fixed arrays at the start -/

/-- The fields of a call are those of registered types. -/
def ParseCall.OfRegistry (reg : MetaRegistry) : ParseCall → Prop
  | .members descriptor _ _ _ => ∃ type, metaGetDescriptor reg type = some descriptor
  | .field of_ _ _ _ => reg.HasField of_
  | .elements of_ _ _ _ _ => reg.HasField of_ ∧ of_.flags ≠ 0
  | _ => True

theorem ParseCall.ofRegistry_document {reg : MetaRegistry} (expected : Nat) (heap : BlockHeap) (json : List UInt8) :
    (ParseCall.document expected heap json).OfRegistry reg := trivial

theorem ParseCall.OfRegistry.next {call call' : ParseCall} (from_ : call.OfRegistry P.reg)
    (next : call.Next P scan parse call') : call'.OfRegistry P.reg := by
  cases next with
  | document | fixed | intrusive | fixedValue | added | nested | single => trivial
  | object found => exact ⟨_, found⟩
  | unknown => exact from_
  | field _ found =>
    obtain ⟨type, registered⟩ := from_
    exact ⟨type, _, registered, List.mem_of_find?_eq_some found⟩
  | member => exact from_
  | elements _ flags => exact ⟨from_, flags⟩
  | element => exact from_

/-- **Literals are in place** where arrays are fixed ones at the start of their objects. -/
theorem inPlace_of_fixed {room : MetaField → Nat → Prop} (valid : P.reg.FlagsValid)
    (fixed : ∀ of_, P.reg.HasField of_ → of_.flags ≠ 0 →
      of_.isIntrusiveArray = false ∧ of_.offset = 0 ∧ 0 < of_.fixedArrayLen)
    {call : ParseCall} (from_ : start.OfRegistry P.reg) (reached : start.Reaches P scan parse call) :
    call.InPlace P.reg room := by
  have registered : call.OfRegistry P.reg := by
    induction reached with
    | refl => exact from_
    | tail _ next ih => exact ih.next next
  cases call with
  | field of_ heap s out =>
    intro _
    by_cases plain : of_.flags = 0
    · have none_ : of_.isFixedArray = false ∧ of_.isIntrusiveArray = false := by
        rw [MetaField.isFixedArray, MetaField.isIntrusiveArray, plain]
        exact ⟨rfl, rfl⟩
      rw [MetaField.extent, none_.1, none_.2, if_neg Bool.false_ne_true, if_neg Bool.false_ne_true]
    · obtain ⟨notIntrusive, -, some_⟩ := fixed of_ registered plain
      have is : of_.isFixedArray = true := by
        obtain ⟨type, descriptor, found, member⟩ := registered
        unfold MetaField.isFixedArray
        unfold MetaField.isIntrusiveArray at notIntrusive
        rcases valid type descriptor found of_ member with flags | flags | flags
        · exact absurd flags plain
        · rw [flags]
          rfl
        · rw [flags] at notIntrusive
          cases notIntrusive
      rw [extent_fixed is]
      exact Nat.le_mul_of_pos_left _ some_
  | elements of_ out i heap s =>
    obtain ⟨notIntrusive, offset, -⟩ := fixed of_ registered.1 registered.2
    exact ⟨offset, fun same => absurd (notIntrusive.symm.trans same) Bool.false_ne_true⟩
  | _ => trivial

end Rounds

/-! ### A row, and a grid whose cells are behind a number -/

theorem row_laid : ∀ type ∈ (metaRegisterAll (metaEmpty .empty) rowTypes).2,
    (∀ field ∈ type.fields, field.offset + field.extent rowParser.reg ≤ type.size ∧
      field.isIntrusiveArray = false ∧ field.offset = 0 ∧ 0 < field.fixedArrayLen) ∧
      (type.typeClass = .primitive → type.primitive.width ≤ type.size) ∧ type.typeClass ≠ .string := by
  decide +kernel

theorem row_fixed {field : MetaField} (has : rowParser.reg.HasField field) :
    field.isIntrusiveArray = false ∧ field.offset = 0 ∧ 0 < field.fixedArrayLen := by
  obtain ⟨_, _, found, member⟩ := has
  exact ((row_laid _ (metaGetDescriptor_some rowRegistry_lists found).1).1 _ member).2

/-- Rows are laid out as the compiler does it. -/
def rowLaid : rowParser.Laid where
  room _ _ := True
  flags := rowRegistry_valid
  inside found member := ((row_laid _ (metaGetDescriptor_some rowRegistry_lists found).1).1 _ member).1
  primitive found := (row_laid _ (metaGetDescriptor_some rowRegistry_lists found).1).2.1
  string found kind := absurd kind (row_laid _ (metaGetDescriptor_some rowRegistry_lists found).1).2.2
  appends _ _ has intrusive := absurd ((row_fixed has).1.symm.trans intrusive) Bool.false_ne_true

/-- A text that gives an object of this type these cells. -/
def cellsText (name : String) (cells : List UInt8) : List UInt8 :=
  ascii "\x7b\"--vd-meta-type-name--\":\"" ++ ascii name ++ ascii "\",\"cells\":" ++ cells ++ ascii "\x7d"

/-- The elements of a row are parsed into their own place. -/
theorem arrays_in_place_row :
    (ParseCall.document 0 ⟨fun _ => 0, []⟩ (cellsText "Row" (ascii "[1,2]"))).ArraysInPlace rowParser emptyKeys
      emptyKeys :=
  (arrays_in_place markFloats_readsTokens.advances rowLaid emptyKeys emptyKeys 0 _ _).1 fun _ reached =>
    inPlace_of_fixed rowRegistry_valid (fun _ has _ => row_fixed has) (ParseCall.ofRegistry_document _ _ _) reached

/-- A grid is a number, two cells, and a number behind them. -/
def gridTypes : List MetaDescriptor :=
  [defaultPrimitive "int32_t" 4 .i32,
   ⟨ascii "Grid", .object, 16, 0, .i8, [⟨ascii "n", 1, 0, 0, 0, none⟩, ⟨ascii "cells", 1, 4, 1, 2, none⟩,
     ⟨ascii "last", 1, 12, 0, 0, none⟩], .cstring⟩]

def gridParser : MetaParser :=
  ⟨64, zeroFloats, (metaRegisterAll (metaEmpty (.default .bump)) gridTypes).1, .bump, []⟩

/-- **The offset is added twice**: the cells 7 and 8 are at 8 and 12, where the number behind them is that no
member names, and not at 4 and 8. -/
theorem cells_displaced :
    ((metaParseJsonWith gridParser emptyKeys emptyKeys 0 ⟨fun _ => 0, []⟩
      (cellsText "Grid" (ascii "[7,8]"))).map fun parsed =>
        (parsed.ret, parsed.object.map fun object => (List.range 4).map fun i =>
          parsed.heap.mem.readNat (object + 4 * i) 4)) = some (0, some [0, 0, 7, 8]) := by
  decide +kernel

end Vaudou
