/-
**Members that no field is declared for.**

`JsonDocument.Inserted` relates a document to the same document with one member more, at any place of any
object in it, whose key is no field of the object as it is read. The parser passes over the member, if it
is not the last of an object that is read and the skipper is not misled: if the larger document is clear.

* `metaParseJson_inserted` — in a clear document the member changes nothing; behind the last member of
  the document it is never accepted.
-/

import Vaudou.Meta.Layouts

namespace Vaudou

open Vaudou.Memory Vaudou.Text

/-! ### Inserting a member -/

/-- The type that the value of a member is read for, in an object of the type `scope`: none, where the
object is skipped or the key is no field of it. -/
def memberType (scope : Option MetaDescriptor) (key : JsonKey) : Option Nat :=
  (scope.bind fun descriptor => findField descriptor key.name.content).map (·.type)

/-- The key is neither a field nor the key of the type name. -/
structure UnknownKey (scope : Option MetaDescriptor) (key : JsonKey) : Prop where
  unknown : memberType scope key = none
  noTypeName : key.name.content ≠ typeNameKey

mutual

/-- **One unknown member is inserted** somewhere in the value, which is read for the type or skipped. -/
inductive Json.Inserted (reg : MetaRegistry) : (type : Option Nat) → Json → Json → Prop where
  | array {type before items items'} : JsonItems.Inserted reg type items items' →
      Json.Inserted reg type (.array before items) (.array before items')
  | emptyObject {type inside before} {key : JsonKey} {value : Json} {behind : Gap} :
      UnknownKey (type.bind (metaGetDescriptor reg)) key →
        Json.Inserted reg type (.emptyObject inside) (.object before (.last key value behind))
  | object {type before members members'} :
      JsonMembers.Inserted reg (type.bind (metaGetDescriptor reg)) members members' →
        Json.Inserted reg type (.object before members) (.object before members')

/-- One unknown member is inserted in one of the elements. -/
inductive JsonItems.Inserted (reg : MetaRegistry) : (type : Option Nat) → JsonItems → JsonItems →
    Prop where
  | last {type value value' behind} : Json.Inserted reg type value value' →
      JsonItems.Inserted reg type (.last value behind) (.last value' behind)
  | here {type value value' behind before items} : Json.Inserted reg type value value' →
      JsonItems.Inserted reg type (.more value behind before items) (.more value' behind before items)
  | later {type value behind before items items'} : JsonItems.Inserted reg type items items' →
      JsonItems.Inserted reg type (.more value behind before items) (.more value behind before items')

/-- One unknown member is inserted in front of the members, behind the last of them, or in the value of
one of them. -/
inductive JsonMembers.Inserted (reg : MetaRegistry) :
    (scope : Option MetaDescriptor) → JsonMembers → JsonMembers → Prop where
  | front {scope members} {key : JsonKey} {value : Json} {behind before : Gap} : UnknownKey scope key →
      JsonMembers.Inserted reg scope members (.more key value behind before members)
  | back {scope key value behind} {key' : JsonKey} {value' : Json} {before behind' : Gap} :
      UnknownKey scope key' → JsonMembers.Inserted reg scope (.last key value behind)
        (.more key value behind before (.last key' value' behind'))
  | last {scope key value value' behind} : Json.Inserted reg (memberType scope key) value value' →
      JsonMembers.Inserted reg scope (.last key value behind) (.last key value' behind)
  | here {scope key value value' behind before members} :
      Json.Inserted reg (memberType scope key) value value' → JsonMembers.Inserted reg scope
        (.more key value behind before members) (.more key value' behind before members)
  | later {scope key value behind before members members'} :
      JsonMembers.Inserted reg scope members members' → JsonMembers.Inserted reg scope
        (.more key value behind before members) (.more key value behind before members')

end

/-- **One unknown member is inserted** in a document of the type. -/
structure JsonDocument.Inserted (reg : MetaRegistry) (type : Nat) (doc doc' : JsonDocument) : Prop where
  before : doc'.before = doc.before
  value : doc.value.Inserted reg (some type) doc'.value
  behind : doc'.behind = doc.behind

section Inserting

variable {P : MetaParser} {expected : Nat}

theorem Json.Inserted.typeName {type : Option Nat} {value value' : Json} {unset : List UInt8}
    (inserted : value.Inserted P.reg type value') : value'.typeName unset = value.typeName unset := by
  cases inserted <;> rfl

/-- An unknown member in front does not name the type. -/
theorem UnknownKey.namedType {scope : Option MetaDescriptor} {key : JsonKey} {value : Json}
    {behind before : Gap}
    {members : JsonMembers} (unknown : UnknownKey scope key) :
    (JsonMembers.more key value behind before members).namedType P expected =
      members.namedType P expected := by
  rw [JsonMembers.namedType, if_neg unknown.noTypeName]

/-- **The member does not name the type.** -/
theorem JsonMembers.Inserted.namedType {scope : Option MetaDescriptor} {members members' : JsonMembers}
    (inserted : members.Inserted P.reg scope members') :
    members'.namedType P expected = members.namedType P expected := by
  induction members using JsonMembers.inductionOn generalizing members' with
  | last key value behind =>
    cases inserted with
    | front unknown => exact unknown.namedType
    | back unknown =>
      rw [JsonMembers.namedType, JsonMembers.namedType, JsonMembers.namedType, if_neg unknown.noTypeName]
    | last inserted => rw [JsonMembers.namedType, JsonMembers.namedType, inserted.typeName]
  | more key value behind before members ih =>
    cases inserted with
    | front unknown => exact unknown.namedType
    | here inserted => rw [JsonMembers.namedType, JsonMembers.namedType, inserted.typeName]
    | later inserted => rw [JsonMembers.namedType, JsonMembers.namedType, ih inserted]

/-- A key that no value is read for. -/
theorem memberType_none {descriptor : MetaDescriptor} {key : JsonKey}
    (unknown : memberType (some descriptor) key = none) : findField descriptor key.name.content = none :=
  Option.map_eq_none_iff.mp unknown

theorem memberType_some {descriptor : MetaDescriptor} {key : JsonKey} {field : MetaField}
    (found : findField descriptor key.name.content = some field) :
    memberType (some descriptor) key = some field.type := by
  rw [memberType, Option.bind_some, found, Option.map_some]

mutual

/-- **The member changes nothing of what a value means**, if the larger value is clear. -/
theorem Json.Inserted.read : ∀ {value value' : Json} {field : MetaField} {element : Bool}
    {heap : BlockHeap} {object : Nat}, value.Inserted P.reg (some field.type) value' →
      value'.Clear P.reg field.type →
        value'.read P field element heap object = value.read P field element heap object
  | _, _, field, element, heap, object, .array inserted, clear => by
    rw [Json.read, Json.read, JsonItems.Inserted.read inserted clear]
  | _, _, field, element, heap, object, .emptyObject unknown, clear => by
    rw [Json.read, Json.read]
    refine Option.bind_eq_none_iff.mpr fun descriptor found => ?_
    obtain ⟨field, known, -⟩ := clear descriptor found
    have none_of := unknown.unknown
    rw [Option.bind_some, found, memberType_some known] at none_of
    cases none_of
  | _, _, field, element, heap, object, .object inserted, clear => by
    rw [Json.read, Json.read]
    refine Option.bind_congr fun descriptor found => ?_
    rw [Option.bind_some, found] at inserted
    exact JsonMembers.Inserted.read inserted (clear descriptor found)

theorem JsonItems.Inserted.read : ∀ {items items' : JsonItems} {field : MetaField} {i : Nat}
    {heap : BlockHeap} {object : Nat}, items.Inserted P.reg (some field.type) items' →
      items'.Clear P.reg field.type → items'.read P field i heap object =
        items.read P field i heap object
  | _, _, field, i, heap, object, .last inserted, clear => by
    rw [JsonItems.read, JsonItems.read]
    simp only [Json.Inserted.read inserted clear]
  | _, _, field, i, heap, object, .here inserted, clear => by
    rw [JsonItems.read, JsonItems.read]
    simp only [Json.Inserted.read inserted clear.1]
  | _, _, field, i, heap, object, .later inserted, clear => by
    rw [JsonItems.read, JsonItems.read]
    simp only [JsonItems.Inserted.read inserted clear.2]

theorem JsonMembers.Inserted.read : ∀ {members members' : JsonMembers} {descriptor : MetaDescriptor}
    {heap : BlockHeap} {object : Nat}, members.Inserted P.reg (some descriptor) members' →
      members'.Clear P.reg descriptor →
        members'.read P descriptor heap object = members.read P descriptor heap object
  | _, _, descriptor, heap, object, .front unknown, clear => by
    rw [JsonMembers.read, memberType_none unknown.unknown]
  | _, _, descriptor, heap, object, .back unknown, clear => by
    obtain ⟨field, known, -⟩ := clear.2.2
    rw [memberType_none unknown.unknown] at known
    cases known
  | _, _, descriptor, heap, object, .last inserted, clear => by
    obtain ⟨field, known, clear⟩ := clear
    rw [memberType_some known] at inserted
    rw [JsonMembers.read, JsonMembers.read, known]
    exact Json.Inserted.read inserted clear
  | .more key value behind before members, _, descriptor, heap, object, .here inserted, clear => by
    rw [JsonMembers.read, JsonMembers.read]
    cases known : findField descriptor key.name.content with
    | none => rfl
    | some field =>
      rw [memberType_some known] at inserted
      simp only [Json.Inserted.read inserted (clear.2.1 field known)]
  | _, _, descriptor, heap, object, .later inserted, clear => by
    rw [JsonMembers.read, JsonMembers.read]
    simp only [JsonMembers.Inserted.read inserted clear.2.2]

end

end Inserting

/-! ### Behind the last member -/

/-- The last member has no field; the members in front of it are clear. -/
def JsonMembers.EndsUnknown (reg : MetaRegistry) : JsonMembers → MetaDescriptor → Prop
  | .last key value _, descriptor => findField descriptor key.name.content = none ∧ value.Transparent
  | .more key value _ _ members, descriptor =>
    (findField descriptor key.name.content = none → value.Transparent) ∧
      (∀ field, findField descriptor key.name.content = some field → value.Clear reg field.type) ∧
        members.EndsUnknown reg descriptor

/-- The last member of the document has no field. -/
def JsonDocument.EndsUnknown (P : MetaParser) (expected : Nat) (doc : JsonDocument) : Prop :=
  match doc.value with
  | .object _ members => members.ScanClear ∧ ∀ type descriptor,
    members.namedType P expected = some type → metaGetDescriptor P.reg type = some descriptor →
      members.EndsUnknown P.reg descriptor
  | _ => False

section Ends

variable {P : MetaParser} {expected : Nat}

/-- **The skipper does not stop at the closing brace**, and there is no comma behind it. -/
theorem parseMembers_endsUnknown (floats : P.floats.ReadsTokens) (valid : P.reg.FlagsValid)
    (last : Gap) :
    ∀ (members : JsonMembers) {descriptor : MetaDescriptor} {fuel n object : Nat} {heap : BlockHeap},
      members.EndsUnknown P.reg descriptor → (∀ field ∈ descriptor.fields, field.FlagsValid) →
        (members.textThen last.bytes).length ≤ fuel →
          (parseMembers P (parseJsonObject P fuel) descriptor object n heap
            (members.textThen last.bytes)).accepted = none := by
  intro members descriptor fuel n object heap ends flags enough
  match members, n with
  | _, 0 => rfl
  | .last key value behind, n + 1 =>
    rw [JsonMembers.textThen, parseMembers_round, ends.1]
    simp only [value.front.visible, ends.2.runsOut]
  | .more key value behind before members, n + 1 =>
    obtain ⟨unknown, known, ends⟩ := ends
    have shorter : (members.textThen last.bytes).length ≤ fuel := by
      refine le_trans ?_ (key.length_textThen.le.trans enough)
      refine le_trans ?_ value.length_textThen
      simp only [List.length_append, List.length_cons]
      omega
    have later : ∀ {heap : BlockHeap}, (parseMembers P (parseJsonObject P fuel) descriptor object n heap
        (before.bytes ++ members.textThen last.bytes)).accepted = none := by
      intro heap
      rw [parseMembers_gap]
      exact parseMembers_endsUnknown floats valid last members ends flags shorter
    rw [JsonMembers.textThen, parseMembers_round]
    cases found : findField descriptor key.name.content with
    | none =>
      simp only [value.front.visible, (unknown found).skipped]
      exact later
    | some field =>
      have reads := reads_member heap (object + field.offset) (parsesValue floats valid value)
        (known field found) (flags field (List.mem_of_find?_eq_some found))
          (Ended.gap behind (Or.inl rfl)) enough
      simp only [(reads.trimmed (by decide)).comma (Or.inr rfl), later, Option.bind_fun_none]

/-- **A document whose last member has no field is not accepted.** -/
theorem succeeded_endsUnknown (floats : P.floats.ReadsTokens) (valid : P.reg.FlagsValid)
    {doc : JsonDocument}
    (ends : doc.EndsUnknown P expected) (heap : BlockHeap) :
    succeeded (metaParseJson P expected heap doc.text) = none := by
  obtain ⟨before, value, behind⟩ := doc
  cases value with
  | object inner members =>
    have brace : skipWhitespace (before.bytes ++ (Json.object inner members).textThen behind.bytes) =
      _ :=
      (skipWhitespace_gap before).trans (skipWhitespace_cons (by decide))
    show succeeded (metaParseJson P expected heap
      (before.bytes ++ (Json.object inner members).textThen behind.bytes)) = _
    rw [succeeded_metaParseJson, jsonGetObjectType_members ends.1]
    refine Option.bind_eq_none_iff.mpr fun type named => Option.bind_eq_none_iff.mpr
      fun descriptor found =>
      Option.bind_eq_none_iff.mpr fun granted _ => ?_
    rw [parseJsonObject_members found brace, parseMembers_gap,
      parseMembers_endsUnknown floats valid behind
      members (ends.2 type descriptor named found) (valid type descriptor found) ?_]
    · rfl
    · rw [Json.textThen, List.length_append, List.length_cons, List.length_append]
      omega
  | _ => exact ends.elim

/-- **The member changes nothing of what a document means**, if the larger document is clear. -/
theorem JsonDocument.Inserted.read {doc doc' : JsonDocument} {heap : BlockHeap} {parsed : MetaParsed}
    {type : Nat} (inserted : doc.Inserted P.reg type doc')
      (read : doc.read P expected heap = some parsed)
    (typed : parsed.type = some type) (clear : doc'.Clear P expected) :
    doc'.read P expected heap = doc.read P expected heap := by
  obtain ⟨before, value, behind⟩ := doc
  obtain ⟨before', value', behind'⟩ := doc'
  obtain ⟨-, inserted, -⟩ := inserted
  cases value with
  | object inner members =>
    cases inserted with
    | object inserted =>
      obtain ⟨found, named, whole⟩ := Option.bind_eq_some_iff.mp read
      obtain ⟨descriptor, _, whole⟩ := Option.bind_eq_some_iff.mp whole
      obtain ⟨granted, _, whole⟩ := Option.bind_eq_some_iff.mp whole
      obtain ⟨heap', _, rfl⟩ := Option.map_eq_some_iff.mp whole
      obtain rfl := Option.some.inj typed
      have sameType : JsonMembers.namedType P expected _ = JsonMembers.namedType P expected _ :=
        inserted.namedType
      show (JsonMembers.namedType P expected _).bind _ = (JsonMembers.namedType P expected _).bind _
      rw [sameType, named, Option.bind_some, Option.bind_some]
      refine Option.bind_congr fun descriptor found => Option.bind_congr fun granted _ => ?_
      rw [Option.bind_some, found] at inserted
      rw [inserted.read (clear.2 _ descriptor (sameType.trans named) found)]
  | _ => cases read

/-- **An unknown member** in a document that is accepted changes neither code nor type, object or heap,
if nothing misleads the parser in the larger document; as its last member it is never accepted. -/
theorem metaParseJson_inserted (floats : P.floats.ReadsTokens) (valid : P.reg.FlagsValid)
    {doc doc' : JsonDocument} {heap : BlockHeap} {parsed : MetaParsed} {type : Nat}
    (clear : doc.Clear P expected)
    (accepted : metaParseJson P expected heap doc.text = some parsed) (success : parsed.ret = 0)
    (typed : parsed.type = some type) (inserted : doc.Inserted P.reg type doc') :
    (doc'.Clear P expected → metaParseJson P expected heap doc'.text = some parsed) ∧
      (doc'.EndsUnknown P expected → metaParseJson P expected heap doc'.text ≠ some parsed) := by
  have read : doc.read P expected heap = some parsed := by
    rw [← metaParseJson_read floats valid clear]
    exact (succeeded_eq_some success).mpr accepted
  refine ⟨fun clear' => ?_, fun ends same => ?_⟩
  · rw [← succeeded_eq_some success, metaParseJson_read floats valid clear',
      inserted.read read typed clear']
    exact read
  · have nothing := succeeded_endsUnknown floats valid ends heap
    rw [(succeeded_eq_some success).mpr same] at nothing
    cases nothing

end Ends

/-! ### A note in the row -/

def noteLiteral : Literal := ⟨ascii "note", ascii "note", by decide +kernel⟩

/-- A text with a comma. -/
def listLiteral : Literal := ⟨ascii "a,b", ascii "a,b", by decide +kernel⟩

def typeNameKeyed : JsonKey := ⟨typeNameLiteral, .empty, .empty⟩

def cellsKeyed : JsonKey := ⟨cellsLiteral, .empty, .empty⟩

def noteKeyed : JsonKey := ⟨noteLiteral, .empty, .empty⟩

def cellsValue : Json :=
  .array .empty (.more (.scalar oneScalar) .empty .empty (.last (.scalar twoScalar) .empty))

/-- A list with an object. -/
def noteValue : Json :=
  .array .empty (.more (.string cellsLiteral) .empty .empty
    (.last (.object .empty (.last noteKeyed (.scalar oneScalar) .empty)) .empty))

/-- The row with a note in front of its cells. -/
def rowNoted (note : Json) : JsonDocument :=
  ⟨.empty, .object .empty (.more typeNameKeyed (.string rowLiteral) .empty .empty
    (.more noteKeyed note .empty .empty (.last cellsKeyed cellsValue .empty))), .empty⟩

/-- The row with a note behind its cells. -/
def rowNotedLast (note : Json) : JsonDocument :=
  ⟨.empty, .object .empty (.more typeNameKeyed (.string rowLiteral) .empty .empty
    (.more cellsKeyed cellsValue .empty .empty (.last noteKeyed note .empty))), .empty⟩

theorem noteKeyed_unknown : UnknownKey ((some 2).bind (metaGetDescriptor rowRegistry)) noteKeyed := by
  refine ⟨?_, by decide +kernel⟩
  rw [Option.bind_some]
  cases found : metaGetDescriptor rowRegistry 2 with
  | none => rfl
  | some descriptor =>
    obtain rfl := rowRegistry_found found
    rfl

theorem rowNoted_inserted (note : Json) : rowMinified.Inserted rowRegistry 2 (rowNoted note) :=
  ⟨rfl, .object (.later (.front noteKeyed_unknown)), rfl⟩

theorem rowNotedLast_inserted (note : Json) : rowMinified.Inserted rowRegistry 2 (rowNotedLast note) :=
  ⟨rfl, .object (.later (.back noteKeyed_unknown)), rfl⟩

/-- **The row is not parsed** with a note behind its cells, or with a comma in a note in
front of them. -/
theorem metaParseJson_notes :
    rowMinified.Inserted rowRegistry 2 (rowNotedLast noteValue) ∧
      rowMinified.Inserted rowRegistry 2 (rowNoted (.string listLiteral)) ∧
        (metaParseJson rowParser 0 ⟨fun _ => 0, []⟩ rowMinified.text).map (·.ret) = some 0 ∧
          (metaParseJson rowParser 0 ⟨fun _ => 0, []⟩ (rowNotedLast noteValue).text).map (·.ret) =
            some metaInvalidJson ∧
            (metaParseJson rowParser 0 ⟨fun _ => 0, []⟩ (rowNoted (.string listLiteral)).text).map
              (·.ret) =
              some metaInvalidJson :=
  ⟨rowNotedLast_inserted _, rowNoted_inserted _, by decide +kernel, by decide +kernel, by decide +kernel⟩

/-- The note in front of the cells is clear of the keys that are read. -/
theorem rowNoted_clear : (rowNoted noteValue).Clear rowParser 0 := by
  refine ⟨Or.inl rfl, fun type descriptor named found => ?_⟩
  obtain rfl : 2 = type := rowDocument_named named
  obtain rfl := rowRegistry_found found
  refine ⟨fun _ => ?_, fun field found => ?_, fun _ => ?_, fun field found => ?_, ?_⟩
  · exact rowLiteral_plain.transparent
  · cases found
  · unfold Json.Transparent
    decide +kernel
  · cases found
  · exact ⟨_, rfl, trivial, trivial⟩

/-- A note in front of the cells is passed over. -/
theorem metaParseJson_inserted_row : ∃ parsed,
    metaParseJson rowParser 0 ⟨fun _ => 0, []⟩ rowMinified.text = some parsed ∧ parsed.ret = 0 ∧
      ((rowNoted noteValue).Clear rowParser 0 →
          metaParseJson rowParser 0 ⟨fun _ => 0, []⟩ (rowNoted noteValue).text = some parsed) ∧
        ((rowNoted noteValue).EndsUnknown rowParser 0 →
          metaParseJson rowParser 0 ⟨fun _ => 0, []⟩ (rowNoted noteValue).text ≠ some parsed) := by
  have parses : ((metaParseJson rowParser 0 ⟨fun _ => 0, []⟩ rowMinified.text).map
      fun parsed => (parsed.ret, parsed.type)) = some (0, some 2) := by decide +kernel
  obtain ⟨parsed, accepted, results⟩ := Option.map_eq_some_iff.mp parses
  obtain ⟨success, typed⟩ : parsed.ret = 0 ∧ parsed.type = some 2 := Prod.mk.inj results
  have floats : rowParser.floats.ReadsTokens := markFloats_readsTokens
  have valid : rowParser.reg.FlagsValid := rowRegistry_valid
  have clear : rowMinified.Clear rowParser 0 := rowDocument_clear _ _ _ _ _ _
  have inserted : rowMinified.Inserted rowParser.reg 2 (rowNoted noteValue) := rowNoted_inserted _
  exact ⟨parsed, accepted, success, metaParseJson_inserted floats valid clear accepted success typed inserted⟩

end Vaudou
