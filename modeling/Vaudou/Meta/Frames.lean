/-
**What every parse leaves behind.**

The parser writes to memory, obtains blocks, and has the add procedures of arrays called. A condition on
heaps that these three keep (`MetaParser.Frame`) is met by the heap of every parse, however it ends, and
a code that is no success is negative (`ParseResult.Leaves`).

* `parseJsonObject_leaves` — that holds of every object, at any depth.
-/

import Vaudou.Meta.Parser

namespace Vaudou

open Vaudou.Memory Vaudou.Text

/-- The heap meets the condition, and a code that is no success is negative. -/
def ParseResult.Leaves (I : BlockHeap → Prop) (result : ParseResult) : Prop :=
  ∀ heap outcome, result = some (heap, outcome) → I heap ∧ ∀ code, outcome = .error code → code < 0

/-- The field of a registered type. -/
def MetaRegistry.HasField (reg : MetaRegistry) (field : MetaField) : Prop :=
  ∃ type descriptor, metaGetDescriptor reg type = some descriptor ∧ field ∈ descriptor.fields

/-- **A condition on heaps that the steps of a parser keep.** -/
structure MetaParser.Frame (P : MetaParser) (I : BlockHeap → Prop) : Prop where
  write : ∀ heap mem, I heap → I { heap with mem := mem }
  grant : ∀ heap size heap' p, P.alloc.alloc heap size = some (heap', p) → I heap → I heap'
  add : ∀ field, P.reg.HasField field → ∀ heap array size heap',
    (field.intrusiveProps.getD P.reg.props).add heap array size = some heap' → I heap → I heap'

section Results

variable {I : BlockHeap → Prop} {result : ParseResult} {heap : BlockHeap} {rest : List UInt8}

theorem leaves_none : ParseResult.Leaves I none := fun _ _ same => nomatch same

theorem leaves_ok (keeps : I heap) : ParseResult.Leaves I (some (heap, .ok rest)) := by
  rintro heap' outcome ⟨⟩
  exact ⟨keeps, fun code same => nomatch same⟩

theorem leaves_error {code : Int} (keeps : I heap) (negative : code < 0) :
    ParseResult.Leaves I (some (heap, .error code)) := by
  rintro heap' outcome ⟨⟩
  refine ⟨keeps, fun code' same => ?_⟩
  cases same
  exact negative

theorem leaves_andThen {step : BlockHeap → List UInt8 → ParseResult} (leaves : result.Leaves I)
    (steps : ∀ heap rest, I heap → (step heap rest).Leaves I) : (result.andThen step).Leaves I := by
  cases result with
  | none => exact leaves_none
  | some outcome =>
    obtain ⟨heap, code | rest⟩ := outcome
    · obtain ⟨keeps, negative⟩ := leaves heap (.error code) rfl
      exact leaves_error keeps (negative code rfl)
    · exact steps heap rest (leaves heap (.ok rest) rfl).1

end Results

section Loops

variable {P : MetaParser} {I : BlockHeap → Prop} {parseObject : ParseProc}
  (frame : P.Frame I) (objects : ∀ heap s type object, I heap →
    (parseObject heap s type object).Leaves I)

include frame objects

theorem parseJsonDescriptor_leaves (type : Nat) (descriptor : Option MetaDescriptor) (heap : BlockHeap)
    (s : List UInt8) (object : Nat) (keeps : I heap) :
    (parseJsonDescriptor P parseObject type descriptor heap s object).Leaves I := by
  unfold parseJsonDescriptor
  split
  · exact objects heap s type object keeps
  · cases descriptor with
    | none => exact leaves_none
    | some descriptor =>
      rw [Option.bind_some]
      split
      · exact leaves_ok (frame.write _ _ keeps)
      · split
        · unfold parseCString
          split
          · exact leaves_ok keeps
          · next key rest _ =>
            cases granted : P.alloc.alloc heap (key.length + 1) with
            | none => exact leaves_none
            | some block => exact leaves_ok (frame.write _ _ (frame.grant _ _ _ _ granted keeps))
        · exact leaves_ok keeps
      · exact leaves_ok keeps
      · exact leaves_ok keeps

theorem parseElements_leaves {field : MetaField} (has : P.reg.HasField field) (object : Nat) :
    ∀ (fuel i : Nat) (heap : BlockHeap) (s : List UInt8), I heap →
      (parseElements P parseObject field object fuel i heap s).Leaves I := by
  intro fuel
  induction fuel with
  | zero => exact fun _ _ _ _ => leaves_none
  | succ fuel ih =>
    intro i heap s keeps
    rw [parseElements]
    refine leaves_andThen ?_ fun heap s keeps => leaves_andThen ?_ fun heap s keeps => ?_
    · split
      · unfold parseFixedElement
        split
        · exact leaves_error keeps (by decide)
        · cases metaGetDescriptor P.reg field.type with
          | none => exact leaves_none
          | some descriptor => exact parseJsonDescriptor_leaves frame objects _ _ _ _ _ keeps
      · exact leaves_ok keeps
    · split
      · unfold parseIntrusiveElement
        cases metaGetDescriptor P.reg field.type with
        | none => exact leaves_none
        | some descriptor =>
          rw [Option.bind_some]
          cases added : fieldArrayAdd P field descriptor.size heap object with
          | none => exact leaves_none
          | some place =>
            obtain ⟨heap', grown, rfl⟩ := Option.map_eq_some_iff.mp added
            exact parseJsonDescriptor_leaves frame objects _ _ _ _ _
              (frame.add field has _ _ _ _ grown keeps)
      · exact leaves_ok keeps
    · split
      · exact leaves_ok keeps
      · split
        · exact ih _ _ _ keeps
        · exact leaves_error keeps (by decide)

theorem parseJsonField_leaves {field : MetaField} (has : P.reg.HasField field) (heap : BlockHeap)
    (s : List UInt8) (object : Nat) (keeps : I heap) :
    (parseJsonField P parseObject field heap s object).Leaves I := by
  unfold parseJsonField
  simp only
  split
  · split
    · exact leaves_error keeps (by decide)
    · exact parseElements_leaves frame objects has _ _ _ _ _ keeps
  · split
    · exact leaves_error keeps (by decide)
    · exact parseJsonDescriptor_leaves frame objects _ _ _ _ _ keeps

theorem parseMembers_leaves {descriptor : MetaDescriptor}
    (has : ∀ field ∈ descriptor.fields, P.reg.HasField field) (object : Nat) :
    ∀ (fuel : Nat) (heap : BlockHeap) (s : List UInt8), I heap →
      (parseMembers P parseObject descriptor object fuel heap s).Leaves I := by
  intro fuel
  induction fuel with
  | zero => exact fun _ _ _ => leaves_none
  | succ fuel ih =>
    intro heap s keeps
    rw [parseMembers]
    split
    · exact leaves_error keeps (by decide)
    · split
      · split
        · exact leaves_error keeps (by decide)
        · exact ih _ _ keeps
      · next field found =>
        have member := has field (List.mem_of_find?_eq_some found)
        refine leaves_andThen (parseJsonField_leaves frame objects member _ _ _ keeps)
          fun heap rest keeps => ?_
        split
        · exact leaves_ok keeps
        · split
          · exact ih _ _ keeps
          · exact leaves_error keeps (by decide)

omit objects

/-- **The heap of a parse** meets every condition that the steps keep. -/
theorem parseJsonObject_leaves : ∀ (fuel : Nat) (heap : BlockHeap) (s : List UInt8) (type object : Nat),
    I heap → (parseJsonObject P fuel heap s type object).Leaves I := by
  intro fuel
  induction fuel with
  | zero => exact fun _ _ _ _ _ => leaves_none
  | succ fuel ih =>
    intro heap s type object keeps
    rw [parseJsonObject]
    split
    · exact leaves_error keeps (by decide)
    · next descriptor found =>
      split
      · exact leaves_error keeps (by decide)
      · exact parseMembers_leaves frame ih
          (fun field member => ⟨type, descriptor, found, member⟩) _ _ _ _ keeps

end Loops

end Vaudou
