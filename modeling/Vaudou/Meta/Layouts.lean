/-
**White space between the tokens of a document.**

Two layouts of a document have the same erasure. The parser skips white space everywhere but between an
element of an array and the comma or bracket behind it: a document is `Tidy` if there is none in the
arrays that are read.

* `metaParseJson_layout` — another layout of an accepted document is parsed to the same result exactly
  where it is tidy.
-/

import Vaudou.Meta.Accepting
import Vaudou.Meta.RoundTrip

namespace Vaudou

open Vaudou.Memory Vaudou.Text

/-! ### Tidy documents -/

mutual

/-- **No white space is behind an element** of an array that is read for the type. -/
def Json.Tidy (reg : MetaRegistry) : Json → (type : Nat) → Prop
  | .scalar _, _ => True
  | .string _, _ => True
  | .emptyArray _, _ => True
  | .array _ items, type => items.Tidy reg type
  | .emptyObject _, _ => True
  | .object _ members, type => ∀ descriptor, metaGetDescriptor reg type = some descriptor →
    members.Tidy reg descriptor

/-- No white space is behind an element. -/
def JsonItems.Tidy (reg : MetaRegistry) : JsonItems → (type : Nat) → Prop
  | .last value behind, type => value.Tidy reg type ∧ behind.bytes = []
  | .more value behind _ items, type => value.Tidy reg type ∧ behind.bytes = [] ∧ items.Tidy reg type

/-- The values of the members that have a field are tidy. -/
def JsonMembers.Tidy (reg : MetaRegistry) : JsonMembers → MetaDescriptor → Prop
  | .last key value _, descriptor =>
    ∀ field, findField descriptor key.name.content = some field → value.Tidy reg field.type
  | .more key value _ _ members, descriptor =>
    (∀ field, findField descriptor key.name.content = some field → value.Tidy reg field.type) ∧
      members.Tidy reg descriptor

end

/-- The members are tidy for the type that they name. -/
def JsonDocument.Tidy (P : MetaParser) (expected : Nat) (doc : JsonDocument) : Prop :=
  match doc.value with
  | .object _ members => ∀ type descriptor, members.namedType P expected = some type →
    metaGetDescriptor P.reg type = some descriptor → members.Tidy P.reg descriptor
  | _ => True

section Erasing

variable {P : MetaParser} {expected : Nat}

mutual

/-- **A tidy value means what it means without white space.** -/
theorem Json.read_erase : ∀ (value : Json) {field : MetaField} {element : Bool} {heap : BlockHeap}
    {object : Nat}, value.Tidy P.reg field.type →
      value.erase.read P field element heap object = value.read P field element heap object
  | .scalar _, _, _, _, _, _ => rfl
  | .string _, _, _, _, _, _ => rfl
  | .emptyArray _, _, _, _, _, _ => rfl
  | .array before items, field, element, heap, object, tidy => by
    rw [Json.erase, Json.read, Json.read, items.read_erase tidy]
  | .emptyObject _, _, _, _, _, _ => rfl
  | .object before members, field, element, heap, object, tidy => by
    rw [Json.erase, Json.read, Json.read]
    exact Option.bind_congr fun descriptor found => members.read_erase (tidy descriptor found)

theorem JsonItems.read_erase : ∀ (items : JsonItems) {field : MetaField} {i : Nat} {heap : BlockHeap}
    {object : Nat}, items.Tidy P.reg field.type →
      items.erase.read P field i heap object = items.read P field i heap object
  | .last value behind, field, i, heap, object, tidy => by
    rw [JsonItems.erase, JsonItems.read, JsonItems.read, tidy.2]
    simp only [value.read_erase tidy.1]
    rfl
  | .more value behind before items, field, i, heap, object, tidy => by
    rw [JsonItems.erase, JsonItems.read, JsonItems.read, tidy.2.1]
    simp only [value.read_erase tidy.1, items.read_erase tidy.2.2]
    rfl

theorem JsonMembers.read_erase : ∀ (members : JsonMembers) {descriptor : MetaDescriptor}
    {heap : BlockHeap} {object : Nat}, members.Tidy P.reg descriptor →
      members.erase.read P descriptor heap object = members.read P descriptor heap object
  | .last key value behind, descriptor, heap, object, tidy => by
    rw [JsonMembers.erase, JsonMembers.read, JsonMembers.read]
    exact Option.bind_congr fun field found => value.read_erase (tidy field found)
  | .more key value behind before members, descriptor, heap, object, tidy => by
    rw [JsonMembers.erase, JsonMembers.read, JsonMembers.read]
    show (match findField descriptor key.name.content with | none => _ | some field => _) = _
    cases found : findField descriptor key.name.content with
    | none => exact members.read_erase tidy.2
    | some field =>
      simp only [value.read_erase (tidy.1 field found), members.read_erase tidy.2]

end

mutual

/-- **A value that means something is tidy.** -/
theorem Json.tidy_of_read : ∀ (value : Json) {field : MetaField} {element : Bool}
    {heap heap' : BlockHeap}
    {object : Nat}, value.read P field element heap object = some heap' → value.Tidy P.reg field.type
  | .scalar _, _, _, _, _, _, _ => trivial
  | .string _, _, _, _, _, _, _ => trivial
  | .emptyArray _, _, _, _, _, _, _ => trivial
  | .array before items, field, element, heap, heap', object, read => by
    rw [Json.read] at read
    split_ifs at read
    exact items.tidy_of_read read
  | .emptyObject _, _, _, _, _, _, _ => trivial
  | .object before members, field, element, heap, heap', object, read => by
    intro descriptor found
    rw [Json.read, found] at read
    exact members.tidy_of_read read

theorem JsonItems.tidy_of_read : ∀ (items : JsonItems) {field : MetaField} {i : Nat}
    {heap heap' : BlockHeap} {object : Nat}, items.read P field i heap object = some heap' →
      items.Tidy P.reg field.type
  | .last value behind, field, i, heap, heap', object, read => by
    rw [JsonItems.read] at read
    obtain ⟨later, element, tidy⟩ := Option.bind_eq_some_iff.mp read
    obtain ⟨slot, _, element⟩ := Option.bind_eq_some_iff.mp element
    exact ⟨value.tidy_of_read element, (Option.ite_none_right_eq_some.mp tidy).1⟩
  | .more value behind before items, field, i, heap, heap', object, read => by
    rw [JsonItems.read] at read
    obtain ⟨later, element, rest⟩ := Option.bind_eq_some_iff.mp read
    obtain ⟨slot, _, element⟩ := Option.bind_eq_some_iff.mp element
    obtain ⟨tidy, rest⟩ := Option.ite_none_right_eq_some.mp rest
    exact ⟨value.tidy_of_read element, tidy, items.tidy_of_read rest⟩

theorem JsonMembers.tidy_of_read : ∀ (members : JsonMembers) {descriptor : MetaDescriptor}
    {heap heap' : BlockHeap} {object : Nat}, members.read P descriptor heap object = some heap' →
      members.Tidy P.reg descriptor
  | .last key value behind, descriptor, heap, heap', object, read => by
    intro field found
    rw [JsonMembers.read, found] at read
    exact value.tidy_of_read read
  | .more key value behind before members, descriptor, heap, heap', object, read => by
    rw [JsonMembers.read] at read
    cases known : findField descriptor key.name.content with
    | none =>
      rw [known] at read
      refine ⟨fun field found => ?_, members.tidy_of_read read⟩
      rw [known] at found
      cases found
    | some field =>
      rw [known] at read
      obtain ⟨later, first, rest⟩ := Option.bind_eq_some_iff.mp read
      refine ⟨fun field' found => ?_, members.tidy_of_read rest⟩
      obtain rfl := Option.some.inj (known.symm.trans found)
      exact value.tidy_of_read first

end

/-! ### What does not depend on the layout -/

theorem Json.typeName_erase {unset : List UInt8} (value : Json) :
    value.erase.typeName unset = value.typeName unset := by
  cases value <;> rfl

theorem JsonMembers.namedType_erase (members : JsonMembers) :
    members.erase.namedType P expected = members.namedType P expected := by
  induction members using JsonMembers.inductionOn with
  | last key value _ =>
    rw [JsonMembers.erase, JsonMembers.namedType, JsonMembers.namedType, value.typeName_erase]
    rfl
  | more key value _ _ members ih =>
    rw [JsonMembers.erase, JsonMembers.namedType, JsonMembers.namedType, value.typeName_erase, ih]
    rfl

theorem JsonMembers.scanClear_erase (members : JsonMembers) : members.erase.ScanClear ↔
    members.ScanClear := by
  induction members using JsonMembers.inductionOn with
  | last _ value _ => exact or_congr Iff.rfl value.transparent_erase
  | more _ value _ _ members ih => exact or_congr Iff.rfl (and_congr value.transparent_erase ih)

mutual

theorem Json.clear_erase {reg : MetaRegistry} : ∀ (value : Json) {type : Nat},
    value.erase.Clear reg type ↔ value.Clear reg type
  | .scalar _, _ => Iff.rfl
  | .string _, _ => Iff.rfl
  | .emptyArray _, _ => Iff.rfl
  | .array _ items, _ => items.clear_erase
  | .emptyObject _, _ => Iff.rfl
  | .object _ members, _ =>
    forall_congr' fun _ => imp_congr_right fun _ => members.clear_erase

theorem JsonItems.clear_erase {reg : MetaRegistry} : ∀ (items : JsonItems) {type : Nat},
    items.erase.Clear reg type ↔ items.Clear reg type
  | .last value _, _ => value.clear_erase
  | .more value _ _ items, _ => and_congr value.clear_erase items.clear_erase

theorem JsonMembers.clear_erase {reg : MetaRegistry} : ∀ (members : JsonMembers)
    {descriptor : MetaDescriptor},
    members.erase.Clear reg descriptor ↔ members.Clear reg descriptor
  | .last _ value _, _ => exists_congr fun _ => and_congr Iff.rfl value.clear_erase
  | .more _ value _ _ members, _ =>
    and_congr (imp_congr_right fun _ => value.transparent_erase)
      (and_congr (forall_congr' fun _ => imp_congr_right fun _ => value.clear_erase) members.clear_erase)

end

end Erasing

section Documents

variable {P : MetaParser} {expected : Nat}

/-- **What misleads the parser does not depend on the layout.** -/
theorem JsonDocument.clear_erase (doc : JsonDocument) : doc.erase.Clear P expected ↔
    doc.Clear P expected := by
  obtain ⟨before, value, behind⟩ := doc
  cases value with
  | object inner members =>
    refine and_congr members.scanClear_erase ?_
    rw [members.namedType_erase]
    exact forall_congr' fun type => forall_congr' fun descriptor =>
      imp_congr_right fun _ => imp_congr_right fun _ => members.clear_erase
  | _ => exact Iff.rfl

/-- **A tidy document means what it means without white space.** -/
theorem JsonDocument.read_erase {doc : JsonDocument} (tidy : doc.Tidy P expected) (heap : BlockHeap) :
    doc.erase.read P expected heap = doc.read P expected heap := by
  obtain ⟨before, value, behind⟩ := doc
  cases value with
  | object inner members =>
    show (members.erase.namedType P expected).bind _ = (members.namedType P expected).bind _
    rw [members.namedType_erase]
    refine Option.bind_congr fun type named => Option.bind_congr fun descriptor found =>
      Option.bind_congr fun granted _ => ?_
    rw [members.read_erase (tidy type descriptor named found)]
  | _ => rfl

/-- **A document that means something is tidy.** -/
theorem JsonDocument.tidy_of_read {doc : JsonDocument} {heap : BlockHeap} {parsed : MetaParsed}
    (read : doc.read P expected heap = some parsed) : doc.Tidy P expected := by
  obtain ⟨before, value, behind⟩ := doc
  cases value with
  | object inner members =>
    intro type descriptor named found
    obtain ⟨type', named', read⟩ := Option.bind_eq_some_iff.mp read
    obtain rfl := Option.some.inj (named.symm.trans named')
    obtain ⟨descriptor', found', read⟩ := Option.bind_eq_some_iff.mp read
    obtain rfl := Option.some.inj (found.symm.trans found')
    obtain ⟨granted, _, read⟩ := Option.bind_eq_some_iff.mp read
    obtain ⟨heap', read, _⟩ := Option.map_eq_some_iff.mp read
    exact members.tidy_of_read read
  | _ => trivial

theorem succeeded_eq_some {result : Option MetaParsed} {parsed : MetaParsed} (success : parsed.ret = 0) :
    succeeded result = some parsed ↔ result = some parsed := by
  rw [succeeded, Option.filter_eq_some_iff]
  exact ⟨fun both => both.1, fun same => ⟨same, beq_iff_eq.mpr success⟩⟩

/-- **White space between tokens.** Another layout of an accepted document is parsed to the same code,
type, object and heap exactly where no white space is behind an element of an array that is read. -/
theorem metaParseJson_layout (floats : P.floats.ReadsTokens) (valid : P.reg.FlagsValid)
    {doc doc' : JsonDocument} (same : doc.erase = doc'.erase) (clear : doc.Clear P expected)
    {heap : BlockHeap} {parsed : MetaParsed}
    (accepted : metaParseJson P expected heap doc.text = some parsed) (success : parsed.ret = 0) :
    metaParseJson P expected heap doc'.text = some parsed ↔ doc'.Tidy P expected := by
  have clear' : doc'.Clear P expected := by
    rw [← doc'.clear_erase, ← same]
    exact doc.clear_erase.mpr clear
  have read : doc.read P expected heap = some parsed := by
    rw [← metaParseJson_read floats valid clear]
    exact (succeeded_eq_some success).mpr accepted
  rw [← succeeded_eq_some success, metaParseJson_read floats valid clear']
  constructor
  · exact JsonDocument.tidy_of_read
  · intro tidy
    rw [← doc'.read_erase tidy, ← same, doc.read_erase (doc.tidy_of_read read)]
    exact read

end Documents

/-! ### A row of two cells -/

/-- A row is a fixed array of two numbers. -/
def rowTypes : List MetaDescriptor :=
  [defaultPrimitive "int32_t" 4 .i32,
   ⟨ascii "Row", .object, 8, 0, .i8, [⟨ascii "cells", 1, 0, 1, 2, none⟩], .cstring⟩]

def rowRegistry : MetaRegistry := (metaRegisterAll (metaEmpty .empty) rowTypes).1

def rowParser : MetaParser := ⟨64, markFloats, rowRegistry, .bump, []⟩

/-- The row of 1 and 2 at 4096. -/
def rowMemory : Mem :=
  let zero : Mem := fun _ => 0
  (zero.writeInt 4096 4 1).writeInt 4100 4 2

theorem markFloats_readsTokens : markFloats.ReadsTokens :=
  ⟨⟨fun _ => List.suffix_refl _, fun _ => rfl⟩, ⟨fun _ => List.suffix_refl _, fun _ => rfl⟩⟩

theorem rowRegistry_lists : rowRegistry.Lists (metaRegisterAll (metaEmpty .empty) rowTypes).2 :=
  metaRegisterAll_lists rowTypes (metaEmpty_lists .empty)

theorem rowRegistry_valid : rowRegistry.FlagsValid := by
  intro type descriptor found field member
  obtain ⟨among, -⟩ := metaGetDescriptor_some rowRegistry_lists found
  change descriptor ∈ [_, _] at among
  simp only [List.mem_cons, List.not_mem_nil, or_false] at among
  rcases among with rfl | rfl
  · exact absurd member List.not_mem_nil
  · rw [List.mem_singleton.mp member]
    exact Or.inr (Or.inl rfl)

def typeNameLiteral : Literal := ⟨typeNameKey, typeNameKey, by decide +kernel⟩

def rowLiteral : Literal := ⟨ascii "Row", ascii "Row", by decide +kernel⟩

def cellsLiteral : Literal := ⟨ascii "cells", ascii "cells", by decide +kernel⟩

def oneScalar : Scalar := ⟨ascii "1", by decide +kernel, by decide +kernel⟩

def twoScalar : Scalar := ⟨ascii "2", by decide +kernel, by decide +kernel⟩

/-- The row in a layout: the white space in front of the members, behind the colons, in front of the
elements, behind the last element and behind the array. -/
def rowDocument (member colon array element close last : Gap) : JsonDocument :=
  ⟨.empty, .object member
    (.more ⟨typeNameLiteral, .empty, colon⟩ (.string rowLiteral) .empty member
      (.last ⟨cellsLiteral, .empty, array⟩
        (.array element (.more (.scalar oneScalar) .empty element (.last (.scalar twoScalar) close)))
        last)), .empty⟩

def spaceGap : Gap := ⟨ascii " ", by decide +kernel⟩

def newlineGap : Gap := ⟨ascii "\n", by decide +kernel⟩

def indentGap : Gap := ⟨ascii "\n    ", by decide +kernel⟩

/-- The minified text. -/
def rowMinified : JsonDocument := rowDocument .empty .empty .empty .empty .empty .empty

/-- The text with the indentation of 0. -/
def rowPretty : JsonDocument :=
  rowDocument indentGap spaceGap ⟨ascii " \n    ", by decide +kernel⟩
    ⟨ascii "\n        ", by decide +kernel⟩ indentGap
    newlineGap

/-- A text with spaces and line breaks in front of the tokens. -/
def rowSpaced : JsonDocument :=
  rowDocument indentGap spaceGap spaceGap spaceGap .empty newlineGap

/-- **The pretty-printed row is not parsed**: there is a line break behind its last element. -/
theorem metaParseJson_pretty :
    metaWriteJson markFloats 2 rowRegistry rowMemory 4096 2 (-1) = some (0, rowMinified.text) ∧
      metaWriteJson markFloats 2 rowRegistry rowMemory 4096 2 0 = some (0, rowPretty.text) ∧
        rowMinified.erase = rowPretty.erase ∧
          (metaParseJson rowParser 0 ⟨fun _ => 0, []⟩ rowMinified.text).map (·.ret) = some 0 ∧
            (metaParseJson rowParser 0 ⟨fun _ => 0, []⟩ rowPretty.text).map
              (·.ret) = some metaInvalidJson := by
  refine ⟨by decide +kernel, by decide +kernel, rfl, by decide +kernel, by decide +kernel⟩

/-- The rows of the registry. -/
theorem rowRegistry_found {descriptor : MetaDescriptor}
    (found : metaGetDescriptor rowRegistry 2 = some descriptor) :
    descriptor = ⟨ascii "Row", .object, 8, 2, .i8, [⟨ascii "cells", 1, 0, 1, 2, none⟩], .cstring⟩ := by
  obtain ⟨among, id⟩ := metaGetDescriptor_some rowRegistry_lists found
  change descriptor ∈ [_, _] at among
  simp only [List.mem_cons, List.not_mem_nil, or_false] at among
  rcases among with rfl | rfl
  · cases id
  · rfl

/-- The documents that start with the type name of a row. -/
theorem rowDocument_named {type : Nat} {behind between before : Gap} {colon : Gap}
    {members : JsonMembers}
    (named : JsonMembers.namedType rowParser 0
      (.more ⟨typeNameLiteral, before, colon⟩ (.string rowLiteral) behind between members) = some type) :
    2 = type := by
  have two : (namedType rowParser 0 rowLiteral.content).toOption = some 2 := by decide +kernel
  rw [JsonMembers.namedType] at named
  rw [if_pos (show typeNameLiteral.content = typeNameKey from rfl)] at named
  exact Option.some.inj (two.symm.trans named)

theorem rowLiteral_plain : (Json.string rowLiteral).PlainStrings := by
  show ∀ c ∈ ascii "Row", isQuiet c = true
  decide +kernel

theorem rowDocument_clear (member colon array element close last : Gap) :
    (rowDocument member colon array element close last).Clear rowParser 0 := by
  refine ⟨Or.inl rfl, fun type descriptor named found => ?_⟩
  obtain rfl : 2 = type := rowDocument_named named
  obtain rfl := rowRegistry_found found
  refine ⟨fun _ => ?_, fun field found => ?_, ?_⟩
  · exact rowLiteral_plain.transparent
  · cases found
  · exact ⟨_, rfl, trivial, trivial⟩

/-- In front of the tokens white space does not matter. -/
theorem metaParseJson_layout_row : ∃ parsed,
    metaParseJson rowParser 0 ⟨fun _ => 0, []⟩ rowMinified.text = some parsed ∧ parsed.ret = 0 ∧
      (metaParseJson rowParser 0 ⟨fun _ => 0, []⟩ rowSpaced.text = some parsed ↔
        rowSpaced.Tidy rowParser 0) := by
  have parses : ((metaParseJson rowParser 0 ⟨fun _ => 0, []⟩ rowMinified.text).map (·.ret)) = some 0 :=
    by
    decide +kernel
  obtain ⟨parsed, accepted, success⟩ := Option.map_eq_some_iff.mp parses
  have floats : rowParser.floats.ReadsTokens := markFloats_readsTokens
  have valid : rowParser.reg.FlagsValid := rowRegistry_valid
  have same : rowMinified.erase = rowSpaced.erase := rfl
  have clear : rowMinified.Clear rowParser 0 := rowDocument_clear _ _ _ _ _ _
  exact ⟨parsed, accepted, success, metaParseJson_layout floats valid same clear accepted success⟩

end Vaudou
