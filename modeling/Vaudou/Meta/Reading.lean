/-
**What a JSON document means to the parser.**

`Json.read` is the effect of a value on the heap, by recursion on its tree: the members of an object one
after the other, the elements of an array in their slots, and at a token what the parser makes of the
token alone. No text is scanned here but that of tokens.

`Json.Clear` excludes what misleads the parser: an unknown member whose value is not transparent or that
is the last of its object, and a `char` whose string goes on behind an escaped quote.

* `metaParseJson_read` — on the text of a clear document the parser returns 0 exactly where the document
  has a meaning, and then with this meaning.
-/

import Vaudou.Meta.Leaves

namespace Vaudou

open Vaudou.Memory Vaudou.Text

/-! ### The meaning -/

section Meaning

variable (P : MetaParser)

/-- Where an element of an array field is put: the heap with room for it, and its address. -/
def elementSlot (field : MetaField) (i : Nat) (heap : BlockHeap) (object : Nat) :
    Option (BlockHeap × Nat) :=
  (metaGetDescriptor P.reg field.type).bind fun descriptor =>
    if field.isFixedArray then
      if field.fixedArrayLen ≤ i then none
      else some (heap, object + field.offset + i * descriptor.size)
    else fieldArrayAdd P field descriptor.size heap object

mutual

/-- **What a value means** for a field at an address, or for an element of an array field. Only fields
have array values, and the empty array makes an element that nothing is read for. -/
def Json.read : Json → (field : MetaField) → (element : Bool) → BlockHeap → (object : Nat) →
    Option BlockHeap
  | .scalar token, field, _, heap, object => readToken P field.type heap token.bytes object
  | .string token, field, _, heap, object => readToken P field.type heap (quoted token.body) object
  | .emptyArray _, field, element, heap, object =>
    if element ∨ field.flags = 0 then none
    else (elementSlot P field 0 heap object).bind fun slot => readToken P field.type slot.1 [] slot.2
  | .array _ items, field, element, heap, object =>
    if element ∨ field.flags = 0 then none else items.read field 0 heap object
  | .emptyObject _, _, _, _, _ => none
  | .object _ members, field, _, heap, object =>
    (metaGetDescriptor P.reg field.type).bind fun descriptor => members.read descriptor heap object

/-- The elements of an array, from the `i`-th on. There is no white space behind an element. -/
def JsonItems.read : JsonItems → (field : MetaField) → (i : Nat) → BlockHeap → (object : Nat) →
    Option BlockHeap
  | .last value behind, field, i, heap, object =>
    ((elementSlot P field i heap object).bind fun slot => value.read field true slot.1 slot.2).bind
      fun heap => if behind.bytes = [] then some heap else none
  | .more value behind _ items, field, i, heap, object =>
    ((elementSlot P field i heap object).bind fun slot => value.read field true slot.1 slot.2).bind
      fun heap => if behind.bytes = [] then items.read field (i + 1) heap object else none

/-- The members of an object. An unknown member is passed over, unless it is the last. -/
def JsonMembers.read : JsonMembers → MetaDescriptor → BlockHeap → (object : Nat) → Option BlockHeap
  | .last key value _, descriptor, heap, object =>
    (findField descriptor key.name.content).bind fun field =>
      value.read field false heap (object + field.offset)
  | .more key value _ _ members, descriptor, heap, object =>
    match findField descriptor key.name.content with
    | none => members.read descriptor heap object
    | some field => (value.read field false heap (object + field.offset)).bind fun heap =>
      members.read descriptor heap object

end

end Meaning

/-! ### Clear documents -/

mutual

/-- **Nothing in the value misleads the parser** as it reads it for a type. -/
def Json.Clear (reg : MetaRegistry) : Json → (type : Nat) → Prop
  | .scalar _, _ => True
  | .string token, type => ∀ descriptor, metaGetDescriptor reg type = some descriptor →
    descriptor.typeClass = .primitive → descriptor.primitive = .char8 → token.CharClear
  | .emptyArray _, _ => True
  | .array _ items, type => items.Clear reg type
  | .emptyObject _, _ => True
  | .object _ members, type => ∀ descriptor, metaGetDescriptor reg type = some descriptor →
    members.Clear reg descriptor

/-- Every element is clear. -/
def JsonItems.Clear (reg : MetaRegistry) : JsonItems → (type : Nat) → Prop
  | .last value _, type => value.Clear reg type
  | .more value _ _ items, type => value.Clear reg type ∧ items.Clear reg type

/-- The last member has a field, and an unknown member a transparent value. -/
def JsonMembers.Clear (reg : MetaRegistry) : JsonMembers → MetaDescriptor → Prop
  | .last key value _, descriptor => ∃ field, findField descriptor key.name.content = some field ∧
    value.Clear reg field.type
  | .more key value _ _ members, descriptor =>
    (findField descriptor key.name.content = none → value.Transparent) ∧
      (∀ field, findField descriptor key.name.content = some field → value.Clear reg field.type) ∧
        members.Clear reg descriptor

end

/-- The flags of a field are one of the enumerators: none, a fixed array or an intrusive one. -/
def MetaField.FlagsValid (field : MetaField) : Prop :=
  field.flags = 0 ∨ field.flags = 1 ∨ field.flags = 2

/-- The flags of every field are. -/
def MetaRegistry.FlagsValid (reg : MetaRegistry) : Prop :=
  ∀ type descriptor, metaGetDescriptor reg type = some descriptor →
    ∀ field ∈ descriptor.fields, field.FlagsValid

/-! ### One round of a loop -/

/-- What the loops do behind a value: they end at the closing character, or go on behind a comma. -/
def afterValue (close : UInt8) (next : BlockHeap → List UInt8 → Option (BlockHeap × List UInt8))
    (heap : BlockHeap) (s : List UInt8) : Option (BlockHeap × List UInt8) :=
  match expectChar close s with
  | some rest => some (heap, rest)
  | none => (expectChar (charByte ',') s).bind (next heap)

/-- A value ends here. -/
def Ended (rest : List UInt8) : Prop :=
  ∃ c tail, rest = c :: tail ∧
    (isWhitespace c = true ∨ c = charByte ',' ∨ c = charByte ']' ∨ c = charByte '\x7d')

section Rounds

variable {P : MetaParser} {parseObject : ParseProc} {descriptor : MetaDescriptor} {field : MetaField}
  {heap : BlockHeap} {rest s : List UInt8} {object fuel i : Nat} {result : ParseResult}
  {meaning : Option BlockHeap} {next : BlockHeap → List UInt8 → Option (BlockHeap × List UInt8)}

theorem accepted_andThen {step : BlockHeap → List UInt8 → ParseResult} : (result.andThen step).accepted =
    result.accepted.bind fun parsed => (step parsed.1 parsed.2).accepted := by
  cases result with
  | none => rfl
  | some outcome =>
    obtain ⟨heap, code | r⟩ := outcome <;> rfl

theorem accepted_ok : ParseResult.accepted (some (heap, .ok rest)) = some (heap, rest) := rfl

theorem skipWhitespace_gap (gap : Gap) : skipWhitespace (gap.bytes ++ s) = skipWhitespace s :=
  List.dropWhile_append_of_pos gap.blank

theorem Blocked.visible (blocked : Blocked s) : skipWhitespace s = s := by
  obtain ⟨c, tail, rfl, visible, -⟩ := blocked
  exact skipWhitespace_cons visible

/-- The front of a value. -/
theorem Json.front (value : Json) : Blocked (value.textThen rest) := by
  cases value with
  | scalar token =>
    obtain ⟨c, tail, split⟩ := List.exists_cons_of_ne_nil token.nonempty
    rw [Json.textThen, split, List.cons_append]
    exact Blocked.scalar (token.plain c (split ▸ List.mem_cons_self))
  | string token => exact Blocked.quote _
  | emptyArray inside => exact ⟨_, _, rfl, by decide, by decide, by decide, by decide⟩
  | array before items => exact ⟨_, _, rfl, by decide, by decide, by decide, by decide⟩
  | emptyObject inside => exact ⟨_, _, rfl, by decide, by decide, by decide, by decide⟩
  | object before members => exact ⟨_, _, rfl, by decide, by decide, by decide, by decide⟩

theorem JsonItems.front (items : JsonItems) : Blocked (items.textThen rest) := by
  cases items with
  | last value behind => exact value.front
  | more value behind before items => exact value.front

/-- White space and what ends a value. -/
theorem Ended.gap (gap : Gap) {c : UInt8} (ends : c = charByte ',' ∨ c = charByte ']' ∨
    c = charByte '\x7d') :
    Ended (gap.bytes ++ c :: rest) := by
  obtain ⟨bytes, blank⟩ := gap
  cases bytes with
  | nil => exact ⟨c, rest, rfl, Or.inr ends⟩
  | cons d tail => exact ⟨d, tail ++ c :: rest, rfl, Or.inl (blank d List.mem_cons_self)⟩

theorem Ended.stop (ended : Ended rest) : ∀ c ∈ rest.head?, isScalarByte c = false ∧
    c ≠ charByte '"' := by
  intro c head
  obtain ⟨d, tail, rfl, cases⟩ := ended
  obtain rfl := Option.some.inj head
  rcases cases with blank | rfl | rfl | rfl
  · simp only [isWhitespace, Bool.or_eq_true, beq_iff_eq] at blank
    rcases blank with ((rfl | rfl) | rfl) | rfl <;> exact ⟨rfl, by decide⟩
  · exact ⟨rfl, by decide⟩
  · exact ⟨rfl, by decide⟩
  · exact ⟨rfl, by decide⟩

/-- Behind a value that means nothing the loop fails. -/
theorem Reads.failed {close : UInt8} (closes : close = charByte ']' ∨ close = charByte '\x7d')
    (reads : Reads result none rest) :
    (result.accepted.bind fun parsed => afterValue close next parsed.1 parsed.2) = none := by
  cases accepted : result.accepted with
  | none => rfl
  | some parsed =>
    obtain ⟨c, tail, split, -, comma, bracket, brace⟩ := reads parsed.1 parsed.2 accepted
    have other : c ≠ close := closes.elim (fun same => same ▸ bracket) fun same => same ▸ brace
    simp only [Option.bind_some, afterValue, split, expectChar_ne other, expectChar_ne comma]
    rfl

/-- **Behind the last value** the loop ends. -/
theorem Reads.close {close : UInt8} (closes : close = charByte ']' ∨ close = charByte '\x7d')
    (reads : Reads result meaning (close :: rest)) :
    (result.accepted.bind fun parsed => afterValue close next parsed.1 parsed.2) =
      meaning.map fun heap => (heap, rest) := by
  cases meaning with
  | some heap =>
    rw [show result.accepted = some (heap, close :: rest) from reads]
    simp only [Option.bind_some, afterValue, expectChar_cons, Option.map_some]
  | none => exact reads.failed closes

/-- **Behind a value with a comma** the loop goes on. -/
theorem Reads.comma {close : UInt8} (closes : close = charByte ']' ∨ close = charByte '\x7d')
    (reads : Reads result meaning (charByte ',' :: rest)) :
    (result.accepted.bind fun parsed => afterValue close next parsed.1 parsed.2) =
      meaning.bind fun heap => next heap rest := by
  have noComma : charByte ',' ≠ close := by
    rcases closes with rfl | rfl <;> decide
  cases meaning with
  | some heap =>
    rw [show result.accepted = some (heap, charByte ',' :: rest) from reads]
    simp only [Option.bind_some, afterValue, expectChar_ne noComma, expectChar_cons]
  | none => exact reads.failed closes

/-- The result with the white space behind the value skipped. -/
def ParseResult.trimmed (result : ParseResult) : ParseResult :=
  result.map fun parsed => (parsed.1, parsed.2.map skipWhitespace)

theorem accepted_trimmed :
    result.trimmed.accepted = result.accepted.map fun parsed => (parsed.1, skipWhitespace parsed.2) := by
  cases result with
  | none => rfl
  | some outcome =>
    obtain ⟨heap, code | r⟩ := outcome <;> rfl

/-- The white space behind a value does not matter where it is skipped. -/
theorem Reads.trimmed {gap : Gap} {c : UInt8} (visible : isWhitespace c = false)
    (reads : Reads result meaning (gap.bytes ++ c :: rest)) : Reads result.trimmed meaning
      (c :: rest) := by
  cases meaning with
  | some heap =>
    have accepted : result.accepted = some (heap, gap.bytes ++ c :: rest) := reads
    show result.trimmed.accepted = _
    rw [accepted_trimmed, accepted, Option.map_some, skipWhitespace_gap, skipWhitespace_cons visible]
  | none =>
    intro heap r accepted
    rw [accepted_trimmed] at accepted
    obtain ⟨parsed, inner, same⟩ := Option.map_eq_some_iff.mp accepted
    obtain ⟨-, rfl⟩ := Prod.mk.inj same
    have blocked := reads parsed.1 parsed.2 inner
    rw [blocked.visible]
    exact blocked

/-- White space behind an element is not skipped. -/
theorem Reads.untidy {gap : Gap} (blank : gap.bytes ≠ [])
    (reads : Reads result meaning (gap.bytes ++ s)) :
    (result.accepted.bind fun parsed => afterValue (charByte ']') next parsed.1 parsed.2) = none := by
  have stuck : ∀ {c : UInt8} {tail : List UInt8} {heap : BlockHeap}, c ≠ charByte ',' →
    c ≠ charByte ']' →
      afterValue (charByte ']') next heap (c :: tail) = none := by
    intro c tail heap comma close
    rw [afterValue, expectChar_ne close, expectChar_ne comma]
    rfl
  cases meaning with
  | some heap =>
    obtain ⟨c, tail, split⟩ := List.exists_cons_of_ne_nil blank
    have white := gap.blank c (split ▸ List.mem_cons_self)
    rw [show result.accepted = some (heap, gap.bytes ++ s) from reads, split, Option.bind_some]
    refine stuck ?_ ?_ <;>
    · rintro rfl
      cases white
  | none =>
    cases accepted : result.accepted with
    | none => rfl
    | some parsed =>
      obtain ⟨c, tail, split, -, comma, bracket, -⟩ := reads parsed.1 parsed.2 accepted
      rw [Option.bind_some, split]
      exact stuck comma bracket

/-- **A round of the loop over the elements** of an array field. -/
theorem parseElements_round (array : field.flags = 1 ∨ field.flags = 2) :
    (parseElements P parseObject field object (fuel + 1) i heap s).accepted =
      (elementSlot P field i heap object).bind fun slot =>
        (parseJsonDescriptor P parseObject field.type (metaGetDescriptor P.reg field.type) slot.1
            (skipWhitespace s) slot.2).accepted.bind fun parsed =>
          afterValue (charByte ']') (fun heap rest =>
            (parseElements P parseObject field object fuel
              (i + 1) heap rest).accepted) parsed.1 parsed.2 := by
  have behind : ∀ {heap : BlockHeap} {s : List UInt8},
      ParseResult.accepted (match expectChar (charByte ']') s with
        | some rest => some (heap, .ok rest)
        | none =>
          match expectChar (charByte ',') s with
          | some rest => parseElements P parseObject field object fuel (i + 1) heap rest
          | none => some (heap, .error metaInvalidJson)) =
        afterValue (charByte ']') (fun heap rest =>
          (parseElements P parseObject field object fuel (i + 1) heap rest).accepted) heap s := by
    intro heap s
    unfold afterValue
    cases expectChar (charByte ']') s with
    | some rest => rfl
    | none => cases expectChar (charByte ',') s <;> rfl
  rw [parseElements]
  unfold elementSlot
  rcases array with flags | flags
  · have fixed : field.isFixedArray = true := by rw [MetaField.isFixedArray, flags]; rfl
    have intrusive : field.isIntrusiveArray = false := by rw [MetaField.isIntrusiveArray, flags]; rfl
    simp only [fixed, intrusive, if_true, Bool.false_eq_true, if_false, accepted_andThen,
      parseFixedElement, accepted_ok, Option.bind_some]
    cases metaGetDescriptor P.reg field.type with
    | none =>
      split_ifs <;> rfl
    | some descriptor =>
      simp only [Option.bind_some]
      split_ifs
      · rfl
      · exact congrArg _ (funext fun parsed => behind)
  · have fixed : field.isFixedArray = false := by rw [MetaField.isFixedArray, flags]; rfl
    have intrusive : field.isIntrusiveArray = true := by rw [MetaField.isIntrusiveArray, flags]; rfl
    simp only [fixed, intrusive, if_true, Bool.false_eq_true, if_false, accepted_andThen,
      parseIntrusiveElement, accepted_ok, Option.bind_some]
    cases metaGetDescriptor P.reg field.type with
    | none => rfl
    | some descriptor =>
      simp only [Option.bind_some]
      cases fieldArrayAdd P field descriptor.size heap object with
      | none => rfl
      | some slot => exact congrArg _ (funext fun parsed => behind)

/-- **A round of the loop over the members.** -/
theorem parseMembers_step :
    (parseMembers P parseObject descriptor object (fuel + 1) heap s).accepted =
      (expectChar (charByte ':') (skipWhitespace (parseKey P.unset (skipWhitespace s)).2)).bind
        fun behind =>
        match findField descriptor (parseKey P.unset (skipWhitespace s)).1 with
        | none =>
          match jsonSkipValue (skipWhitespace behind) with
          | (false, _) => none
          | (true, rest) => (parseMembers P parseObject descriptor object fuel heap rest).accepted
        | some field =>
          (parseJsonField P parseObject field heap (skipWhitespace behind)
              (object + field.offset)).trimmed.accepted.bind fun parsed =>
            afterValue (charByte '\x7d') (fun heap rest =>
              (parseMembers P parseObject descriptor object fuel heap rest).accepted) parsed.1 parsed.2 := by
  rw [parseMembers]
  cases expectChar (charByte ':') (skipWhitespace (parseKey P.unset (skipWhitespace s)).2) with
  | none => rfl
  | some behind =>
    simp only [Option.bind_some]
    cases findField descriptor (parseKey P.unset (skipWhitespace s)).1 with
    | none =>
      simp only
      obtain ⟨comma, rest⟩ := jsonSkipValue (skipWhitespace behind)
      cases comma <;> rfl
    | some field =>
      simp only [accepted_andThen, accepted_trimmed, Option.bind_map]
      refine congrArg _ (funext fun parsed => ?_)
      simp only [Function.comp_apply, afterValue]
      cases expectChar (charByte '\x7d') (skipWhitespace parsed.2) with
      | some rest => rfl
      | none => cases expectChar (charByte ',') (skipWhitespace parsed.2) <;> rfl

/-- A round at a key. -/
theorem parseMembers_round {key : JsonKey} :
    (parseMembers P parseObject descriptor object (fuel + 1) heap (key.textThen s)).accepted =
      match findField descriptor key.name.content with
      | none =>
        match jsonSkipValue (skipWhitespace s) with
        | (false, _) => none
        | (true, rest) => (parseMembers P parseObject descriptor object fuel heap rest).accepted
      | some field =>
        (parseJsonField P parseObject field heap (skipWhitespace s)
            (object + field.offset)).trimmed.accepted.bind fun parsed =>
          afterValue (charByte '\x7d') (fun heap rest =>
            (parseMembers P parseObject descriptor object fuel heap rest).accepted) parsed.1 parsed.2 := by
  have colon : skipWhitespace (charByte ':' :: (key.before.bytes ++ s)) = charByte ':' ::
    (key.before.bytes ++ s) :=
    skipWhitespace_cons (by decide)
  rw [parseMembers_step, JsonKey.textThen, skipWhitespace_quoted, parseKey, key.name.parseJsonString,
    Option.getD_some]
  simp only [skipWhitespace_gap, colon, expectChar_cons, Option.bind_some]

theorem parseMembers_gap (gap : Gap) : parseMembers P parseObject descriptor object fuel heap
    (gap.bytes ++ s) =
    parseMembers P parseObject descriptor object fuel heap s := by
  cases fuel with
  | zero => rfl
  | succ fuel => rw [parseMembers, parseMembers, skipWhitespace_gap]

theorem parseElements_gap (gap : Gap) :
    parseElements P parseObject field object fuel i heap (gap.bytes ++ s) =
      parseElements P parseObject field object fuel i heap s := by
  cases fuel with
  | zero => rfl
  | succ fuel => rw [parseElements, parseElements, skipWhitespace_gap]

end Rounds

/-! ### The parser on a document -/

section Values

variable {P : MetaParser} {field : MetaField} {heap : BlockHeap} {rest s : List UInt8}
  {object fuel : Nat} {element : Bool} {descriptor : MetaDescriptor}

/-- The value of a field, or of an element of an array field. -/
def parseValue (P : MetaParser) (parseObject : ParseProc) (field : MetaField) (element : Bool)
    (heap : BlockHeap) (s : List UInt8) (object : Nat) : ParseResult :=
  if element then
    parseJsonDescriptor P parseObject field.type (metaGetDescriptor P.reg field.type) heap s object
  else parseJsonField P parseObject field heap s object

/-- What is no array is parsed by the descriptor. -/
theorem parseValue_plain {parseObject : ParseProc} (blocked : Blocked s)
    (bracket : ∀ c ∈ s.head?, c ≠ charByte '[')
    (found : metaGetDescriptor P.reg field.type = some descriptor) :
    parseValue P parseObject field element heap s object =
      parseJsonDescriptor P parseObject field.type (some descriptor) heap s object := by
  cases element with
  | true => rw [parseValue, if_pos rfl, found]
  | false =>
    rw [parseValue, if_neg Bool.false_ne_true, parseJsonField]
    simp only [blocked.visible, expectChar_none bracket, found]

/-- An object of a missing type is not parsed. -/
theorem parseJsonObject_missing {type : Nat} (missing : metaGetDescriptor P.reg type = none) :
    (parseJsonObject P fuel heap s type object).accepted = none := by
  cases fuel with
  | zero => rfl
  | succ fuel => rw [parseJsonObject, missing]; rfl

/-- **A value of a missing type is not parsed.** -/
theorem parseValue_missing (flags : field.FlagsValid)
    (missing : metaGetDescriptor P.reg field.type = none) :
    (parseValue P (parseJsonObject P fuel) field element heap s object).accepted = none := by
  cases element with
  | true =>
    rw [parseValue, if_pos rfl, missing, parseJsonDescriptor]
    split_ifs
    · exact parseJsonObject_missing missing
    · rfl
  | false =>
    rw [parseValue, if_neg Bool.false_ne_true, parseJsonField]
    simp only [missing]
    split
    · split_ifs with plain
      · rfl
      · rw [parseElements_round (flags.resolve_left plain), elementSlot, missing]
        rfl
    · rfl

theorem Json.read_missing (value : Json) (missing : metaGetDescriptor P.reg field.type = none) :
    value.read P field element heap object = none := by
  have slot : ∀ i, elementSlot P field i heap object = none := fun i => by
    rw [elementSlot, missing]
    rfl
  have token : ∀ s, readToken P field.type heap s object = none := fun s => by
    rw [readToken, missing, parseToken, parseJsonDescriptor]
    split_ifs <;> rfl
  cases value with
  | scalar => exact token _
  | string => exact token _
  | emptyArray inside =>
    rw [Json.read, slot]
    split_ifs <;> rfl
  | array before items =>
    rw [Json.read]
    split_ifs
    · rfl
    · cases items <;> rw [JsonItems.read, slot] <;> rfl
  | emptyObject inside => rfl
  | object before members =>
    rw [Json.read, missing]
    rfl

/-- The same result, up to errors. -/
theorem Reads.of_accepted {result : ParseResult} {meaning : Option BlockHeap}
    (accepted : result.accepted = meaning.map fun heap => (heap, rest)) : Reads result meaning rest := by
  cases meaning with
  | some heap => exact accepted
  | none =>
    intro heap r other
    rw [accepted] at other
    cases other

/-- An empty object is not parsed: its brace is no key. -/
theorem parseMembers_empty {parseObject : ParseProc} (inside : Gap) :
    (parseMembers P parseObject descriptor object fuel heap
      (inside.bytes ++ charByte '\x7d' :: rest)).accepted =
      none := by
  rw [parseMembers_gap]
  cases fuel with
  | zero => rfl
  | succ fuel =>
    have brace : skipWhitespace (charByte '\x7d' :: rest) = charByte '\x7d' :: rest :=
      skipWhitespace_cons (by decide)
    have noKey : parseKey P.unset (charByte '\x7d' :: rest) = (P.unset, charByte '\x7d' :: rest) := rfl
    rw [parseMembers, brace]
    have noColon : expectChar (charByte ':') (charByte '\x7d' :: rest) = none := rfl
    simp only [noKey, brace, noColon]
    rfl

/-- A brace opens an object. -/
theorem parseJsonDescriptor_object {parseObject : ParseProc} {type : Nat}
    {descriptor : Option MetaDescriptor} :
    parseJsonDescriptor P parseObject type descriptor heap (charByte '\x7b' :: s) object =
      parseObject heap (charByte '\x7b' :: s) type object := by
  rw [parseJsonDescriptor]
  exact if_pos rfl

theorem parseJsonObject_members {type : Nat} {json : List UInt8}
    (found : metaGetDescriptor P.reg type = some descriptor)
    (brace : skipWhitespace json = charByte '\x7b' :: s) :
    parseJsonObject P (fuel + 1) heap json type object =
      parseMembers P (parseJsonObject P fuel) descriptor object (s.length + 1) heap s := by
  rw [parseJsonObject, found]
  simp only [brace, expectChar_cons]

end Values

section Documents

variable (P : MetaParser)

/-- The parser reads the value as what it means. -/
def ParsesValue (value : Json) : Prop :=
  ∀ {field : MetaField} {element : Bool} {fuel object : Nat} {heap : BlockHeap} {rest : List UInt8},
    value.Clear P.reg field.type → field.FlagsValid → Ended rest → (value.textThen rest).length ≤ fuel →
      Reads (parseValue P (parseJsonObject P fuel) field element heap (value.textThen rest) object)
        (value.read P field element heap object) rest

/-- The loop over the elements reads them as what they mean. -/
def ParsesItems (items : JsonItems) : Prop :=
  ∀ {field : MetaField} {fuel n i object : Nat} {heap : BlockHeap} {rest : List UInt8},
    items.Clear P.reg field.type → field.flags = 1 ∨ field.flags = 2 →
      (items.textThen rest).length ≤ fuel → (items.textThen rest).length < n →
        (parseElements P (parseJsonObject P fuel) field object n i heap (items.textThen rest)).accepted =
          (items.read P field i heap object).map fun heap => (heap, rest)

/-- The loop over the members reads them as what they mean. -/
def ParsesMembers (members : JsonMembers) : Prop :=
  ∀ {descriptor : MetaDescriptor} {fuel n object : Nat} {heap : BlockHeap} {rest : List UInt8},
    members.Clear P.reg descriptor → (∀ field ∈ descriptor.fields, field.FlagsValid) →
      (members.textThen rest).length ≤ fuel → (members.textThen rest).length < n →
        (parseMembers P (parseJsonObject P fuel) descriptor object n heap
          (members.textThen rest)).accepted =
          (members.read P descriptor heap object).map fun heap => (heap, rest)

variable {P}

/-- It is enough to show it for a registered type. -/
theorem parsesValue_of_found {value : Json}
    (reads : ∀ {field : MetaField} {element : Bool} {fuel object : Nat} {heap : BlockHeap}
      {rest : List UInt8} {descriptor : MetaDescriptor},
      metaGetDescriptor P.reg field.type = some descriptor → value.Clear P.reg field.type →
        field.FlagsValid → Ended rest → (value.textThen rest).length ≤ fuel →
          Reads (parseValue P (parseJsonObject P fuel) field element heap (value.textThen rest) object)
            (value.read P field element heap object) rest) : ParsesValue P value := by
  intro field element fuel object heap rest clear flags ended enough
  cases found : metaGetDescriptor P.reg field.type with
  | none =>
    rw [value.read_missing found]
    exact .of_accepted (parseValue_missing flags found)
  | some descriptor => exact reads found clear flags ended enough

theorem parsesValue_scalar (floats : P.floats.ReadsTokens) (token : Scalar) :
    ParsesValue P (.scalar token) := by
  refine parsesValue_of_found ?_
  intro field element fuel object heap rest descriptor found _ _ ended _
  obtain ⟨c, tail, split⟩ := List.exists_cons_of_ne_nil token.nonempty
  obtain ⟨-, -, quote, bracket, -, brace, -⟩ := isScalarByte_plain
    (token.plain c (split ▸ List.mem_cons_self))
  have front : ∀ d ∈ (token.bytes ++ rest).head?, d = c := by
    intro d head
    rw [split] at head
    exact (Option.some.inj head).symm
  have tokenEnd : TokenEnd token.bytes rest :=
    ⟨token.plain, fun c head => (ended.stop c head).1, fun empty => absurd empty token.nonempty⟩
  have blocked : Blocked (token.bytes ++ rest) := (Json.scalar token).front
  rw [Json.textThen, parseValue_plain blocked (fun d head => front d head ▸ bracket) found,
    parseJsonDescriptor_token (peekChar_false fun d head => front d head ▸ brace)]
  refine reads_token found (parseToken_scalar floats tokenEnd fun d head => ?_) fun heap' r =>
    scalar_leaves floats token.plain
  rw [front d head]
  exact ⟨quote, brace⟩

theorem parsesValue_string (floats : P.floats.ReadsTokens) (token : Literal) :
    ParsesValue P (.string token) := by
  refine parsesValue_of_found ?_
  intro field element fuel object heap rest descriptor found clear _ ended _
  have bracket : ∀ d ∈ (quoted token.body ++ rest).head?, d ≠ charByte '[' := by
    intro d head
    rw [← Option.some.inj head]
    decide
  have blocked : Blocked (quoted token.body ++ rest) := (Json.string token).front
  rw [Json.textThen, parseValue_plain blocked bracket found, parseJsonDescriptor_token rfl]
  exact reads_token found (parseToken_literal floats token fun c head => (ended.stop c head).2)
    fun heap' r => literal_leaves floats token (clear descriptor found)

/-- A bracket or a brace in front of a text ends an empty token. -/
theorem TokenEnd.empty {c : UInt8} (s : List UInt8) (visible : isSpace c = false)
    (stop : isScalarByte c = false) : TokenEnd [] (c :: s) where
  scalar _ member := absurd member List.not_mem_nil
  stop _ head := Option.some.inj head ▸ stop
  space _ _ head := Option.some.inj head ▸ visible

/-- **Where a value is missing**, the parser goes on in front of what stands there. -/
theorem reads_missing {c : UInt8} {s : List UInt8} {parseObject : ParseProc} {type object : Nat}
    {heap : BlockHeap}
    {descriptor : MetaDescriptor} (floats : P.floats.ReadsTokens) (ended : TokenEnd [] (c :: s))
    (quote : c ≠ charByte '"') (brace : c ≠ charByte '\x7b')
    (found : metaGetDescriptor P.reg type = some descriptor) :
    Reads (parseJsonDescriptor P parseObject type (some descriptor) heap (c :: s) object)
      (readToken P type heap [] object) (c :: s) := by
  have front : ∀ d ∈ (c :: s).head?, d ≠ charByte '"' ∧ d ≠ charByte '\x7b' := by
    intro d head
    rw [← Option.some.inj head]
    exact ⟨quote, brace⟩
  rw [parseJsonDescriptor_token (peekChar_false fun d head => (front d head).2)]
  exact reads_token found (parseToken_scalar floats ended front) fun heap' r =>
    scalar_leaves floats ended.scalar

/-- An element that is an array is not parsed. -/
theorem reads_bracket {s rest : List UInt8} {parseObject : ParseProc} {type object : Nat}
    {heap : BlockHeap}
    {descriptor : MetaDescriptor} (floats : P.floats.ReadsTokens)
    (found : metaGetDescriptor P.reg type = some descriptor) :
    Reads (parseJsonDescriptor P parseObject type (some descriptor) heap (charByte '[' :: s) object) none
      rest := by
  have ended : TokenEnd [] (charByte '[' :: s) := .empty s rfl rfl
  have reads : Reads (parseJsonDescriptor P parseObject type (some descriptor) heap
    (charByte '[' :: s) object)
      (readToken P type heap [] object) (charByte '[' :: s) :=
    reads_missing floats ended (by decide) (by decide) found
  intro heap' r accepted
  cases meaning : readToken P type heap [] object with
  | none =>
    rw [meaning] at reads
    exact reads heap' r accepted
  | some heap'' =>
    rw [meaning] at reads
    have same : _ = some (heap'', charByte '[' :: s) := reads
    rw [accepted] at same
    obtain ⟨-, rfl⟩ := Prod.mk.inj (Option.some.inj same)
    exact ⟨_, s, rfl, by decide, by decide, by decide, by decide⟩

theorem parsesValue_emptyArray (floats : P.floats.ReadsTokens) (inside : Gap) :
    ParsesValue P (.emptyArray inside) := by
  refine parsesValue_of_found ?_
  intro field element fuel object heap rest descriptor found _ flags _ _
  rw [Json.textThen]
  cases element with
  | true =>
    rw [parseValue, if_pos rfl, found]
    exact reads_bracket floats found
  | false =>
    have bracket : skipWhitespace (charByte '[' :: (inside.bytes ++ charByte ']' :: rest)) =
        charByte '[' :: (inside.bytes ++ charByte ']' :: rest) := skipWhitespace_cons (by decide)
    have close : skipWhitespace (inside.bytes ++ charByte ']' :: rest) = charByte ']' :: rest := by
      rw [skipWhitespace_gap, skipWhitespace_cons (by decide)]
    refine .of_accepted ?_
    rw [parseValue, if_neg Bool.false_ne_true, parseJsonField, Json.read]
    simp only [bracket, expectChar_cons, Bool.false_eq_true, false_or]
    split_ifs with plain
    · rfl
    · rw [parseElements_round (flags.resolve_left plain), close, found, Option.map_bind]
      refine congrArg _ (funext fun slot => ?_)
      have ended : TokenEnd [] (charByte ']' :: rest) := .empty rest rfl rfl
      exact (reads_missing floats ended (by decide) (by decide) found).close (Or.inl rfl)

theorem parsesValue_array (floats : P.floats.ReadsTokens) (before : Gap) {items : JsonItems}
    (parses : ParsesItems P items) : ParsesValue P (.array before items) := by
  refine parsesValue_of_found ?_
  intro field element fuel object heap rest descriptor found clear flags _ enough
  rw [Json.textThen, List.length_cons, List.length_append] at enough
  rw [Json.textThen]
  cases element with
  | true =>
    rw [parseValue, if_pos rfl, found]
    exact reads_bracket floats found
  | false =>
    have bracket : skipWhitespace (charByte '[' :: (before.bytes ++ items.textThen rest)) =
        charByte '[' :: (before.bytes ++ items.textThen rest) := skipWhitespace_cons (by decide)
    refine .of_accepted ?_
    rw [parseValue, if_neg Bool.false_ne_true, parseJsonField, Json.read]
    simp only [bracket, expectChar_cons, Bool.false_eq_true, false_or]
    split_ifs with plain
    · rfl
    · rw [parseElements_gap]
      refine parses clear (flags.resolve_left plain) (by omega) ?_
      rw [List.length_append]
      omega

theorem parsesValue_emptyObject (inside : Gap) : ParsesValue P (.emptyObject inside) := by
  refine parsesValue_of_found ?_
  intro field element fuel object heap rest descriptor found _ _ _ enough
  rw [Json.textThen, List.length_cons] at enough
  obtain ⟨fuel, rfl⟩ := Nat.exists_eq_add_of_le' (Nat.one_le_of_lt enough)
  have blocked : Blocked ((Json.emptyObject inside).textThen rest) := Json.front _
  rw [parseValue_plain blocked (fun c head => by rw [← Option.some.inj head]; decide) found,
    Json.textThen,
    parseJsonDescriptor_object, parseJsonObject_members found (skipWhitespace_cons (by decide))]
  exact .of_accepted (parseMembers_empty inside)

theorem parsesValue_object (valid : P.reg.FlagsValid) (before : Gap) {members : JsonMembers}
    (parses : ParsesMembers P members) : ParsesValue P (.object before members) := by
  refine parsesValue_of_found ?_
  intro field element fuel object heap rest descriptor found clear _ _ enough
  rw [Json.textThen, List.length_cons, List.length_append] at enough
  obtain ⟨fuel, rfl⟩ := Nat.exists_eq_add_of_le' (Nat.one_le_of_lt enough)
  have blocked : Blocked ((Json.object before members).textThen rest) := Json.front _
  rw [parseValue_plain blocked (fun c head => by rw [← Option.some.inj head]; decide) found,
    Json.textThen,
    parseJsonDescriptor_object, parseJsonObject_members found (skipWhitespace_cons (by decide)),
      parseMembers_gap, Json.read, found]
  refine .of_accepted (parses (clear descriptor found) (valid _ _ found) (by omega) ?_)
  rw [List.length_append]
  omega

/-- An element in its slot, up to what stands behind it. -/
theorem reads_element {value : Json} {field : MetaField} {fuel : Nat} {rest : List UInt8}
    (parses : ParsesValue P value) (clear : value.Clear P.reg field.type)
    (flags : field.FlagsValid) (ended : Ended rest) (enough : (value.textThen rest).length ≤ fuel)
    (slot : BlockHeap × Nat) :
    Reads (parseJsonDescriptor P (parseJsonObject P fuel) field.type (metaGetDescriptor P.reg field.type)
      slot.1 (skipWhitespace (value.textThen rest)) slot.2)
        (value.read P field true slot.1 slot.2) rest := by
  have reads : Reads (parseValue P (parseJsonObject P fuel) field true slot.1
    (value.textThen rest) slot.2)
      (value.read P field true slot.1 slot.2) rest := parses clear flags ended enough
  rw [parseValue, if_pos rfl] at reads
  rwa [value.front.visible]

/-- **The last element** is closed, where no white space is behind it. -/
theorem parsesItems_last {value : Json} (behind : Gap) (parses : ParsesValue P value) :
    ParsesItems P (.last value behind) := by
  intro field fuel n i object heap rest clear array enough rounds
  obtain ⟨n, rfl⟩ := Nat.exists_eq_add_of_le' (Nat.one_le_of_lt rounds)
  rw [parseElements_round array, JsonItems.read, JsonItems.textThen, Option.map_bind, Option.bind_assoc]
  refine congrArg _ (funext fun slot => ?_)
  have reads := reads_element parses clear (Or.inr array) (Ended.gap behind (Or.inr (Or.inl rfl)))
    enough slot
  by_cases tidy : behind.bytes = []
  · rw [tidy] at reads ⊢
    exact (reads.close (Or.inl rfl)).trans Option.map_eq_bind
  · rw [reads.untidy tidy]
    simp only [if_neg tidy, Option.map_none, Function.comp_def, Option.bind_fun_none]

/-- **An element with a comma**, where no white space is between them. -/
theorem parsesItems_more {value : Json} {items : JsonItems} (behind before : Gap)
    (parses : ParsesValue P value) (later : ParsesItems P items) :
    ParsesItems P (.more value behind before items) := by
  intro field fuel n i object heap rest clear array enough rounds
  obtain ⟨n, rfl⟩ := Nat.exists_eq_add_of_le' (Nat.one_le_of_lt rounds)
  have shorter : (items.textThen rest).length <
    ((JsonItems.more value behind before items).textThen rest).length := by
    refine Nat.lt_of_lt_of_le ?_ value.length_textThen
    simp only [List.length_append, List.length_cons]
    omega
  rw [parseElements_round array, JsonItems.read, JsonItems.textThen, Option.map_bind, Option.bind_assoc]
  refine congrArg _ (funext fun slot => ?_)
  have reads := reads_element parses clear.1 (Or.inr array) (Ended.gap behind (Or.inl rfl)) enough slot
  by_cases tidy : behind.bytes = []
  · rw [tidy] at reads ⊢
    refine (reads.comma (Or.inl rfl)).trans (congrArg _ (funext fun heap => ?_))
    rw [parseElements_gap, later clear.2 array (by omega) (by omega)]
    rfl
  · rw [reads.untidy tidy]
    simp only [if_neg tidy, Option.map_none, Function.comp_def, Option.bind_fun_none]

/-- The value of a member, up to what stands behind it. -/
theorem reads_member {value : Json} {key : JsonKey} {field : MetaField} {fuel : Nat} {rest : List UInt8}
    (heap : BlockHeap) (object : Nat) (parses : ParsesValue P value)
      (clear : value.Clear P.reg field.type)
    (flags : field.FlagsValid) (ended : Ended rest)
      (enough : (key.textThen (value.textThen rest)).length ≤ fuel) :
    Reads (parseJsonField P (parseJsonObject P fuel) field heap
      (skipWhitespace (value.textThen rest)) object)
      (value.read P field false heap object) rest := by
  have shorter : (value.textThen rest).length ≤ fuel := key.length_textThen.le.trans enough
  have reads : Reads (parseValue P (parseJsonObject P fuel) field false heap
    (value.textThen rest) object)
      (value.read P field false heap object) rest := parses clear flags ended shorter
  rw [parseValue, if_neg Bool.false_ne_true] at reads
  rwa [value.front.visible]

theorem parsesMembers_last {value : Json} (key : JsonKey) (behind : Gap) (parses : ParsesValue P value) :
    ParsesMembers P (.last key value behind) := by
  intro descriptor fuel n object heap rest clear flags enough rounds
  obtain ⟨n, rfl⟩ := Nat.exists_eq_add_of_le' (Nat.one_le_of_lt rounds)
  obtain ⟨field, found, clear⟩ := clear
  rw [JsonMembers.textThen, parseMembers_round, JsonMembers.read, found]
  have reads := reads_member heap (object + field.offset) parses clear
    (flags field (List.mem_of_find?_eq_some found)) (Ended.gap behind (Or.inr (Or.inr rfl))) enough
  exact (reads.trimmed (by decide)).close (Or.inr rfl)

theorem parsesMembers_more {value : Json} {members : JsonMembers} (key : JsonKey) (behind before : Gap)
    (parses : ParsesValue P value) (later : ParsesMembers P members) :
    ParsesMembers P (.more key value behind before members) := by
  intro descriptor fuel n object heap rest clear flags enough rounds
  obtain ⟨n, rfl⟩ := Nat.exists_eq_add_of_le' (Nat.one_le_of_lt rounds)
  obtain ⟨unknown, known, clear⟩ := clear
  have shorter : (members.textThen rest).length <
      ((JsonMembers.more key value behind before members).textThen rest).length := by
    refine Nat.lt_of_lt_of_le ?_ key.length_textThen.le
    refine Nat.lt_of_lt_of_le ?_ value.length_textThen
    simp only [List.length_append, List.length_cons]
    omega
  have rest_eq : ∀ {heap : BlockHeap}, (parseMembers P (parseJsonObject P fuel) descriptor object n heap
      (before.bytes ++ members.textThen rest)).accepted =
        (members.read P descriptor heap object).map fun heap => (heap, rest) := by
    intro heap
    rw [parseMembers_gap, later clear flags (by omega) (by omega)]
  rw [JsonMembers.textThen, parseMembers_round, JsonMembers.read]
  cases found : findField descriptor key.name.content with
  | none =>
    simp only [value.front.visible, (unknown found).skipped]
    exact rest_eq
  | some field =>
    have reads := reads_member heap (object + field.offset) parses (known field found)
      (flags field (List.mem_of_find?_eq_some found)) (Ended.gap behind (Or.inl rfl)) enough
    simp only [(reads.trimmed (by decide)).comma (Or.inr rfl), rest_eq, Option.map_bind]
    rfl

mutual

/-- **The parser reads a value** as what it means. -/
theorem parsesValue (floats : P.floats.ReadsTokens) (valid : P.reg.FlagsValid) :
    ∀ value : Json, ParsesValue P value
  | .scalar token => parsesValue_scalar floats token
  | .string token => parsesValue_string floats token
  | .emptyArray inside => parsesValue_emptyArray floats inside
  | .array before items => parsesValue_array floats before (parsesItems floats valid items)
  | .emptyObject inside => parsesValue_emptyObject inside
  | .object before members => parsesValue_object valid before (parsesMembers floats valid members)

/-- **The loop over the elements** reads them as what they mean. -/
theorem parsesItems (floats : P.floats.ReadsTokens) (valid : P.reg.FlagsValid) :
    ∀ items : JsonItems, ParsesItems P items
  | .last value behind => parsesItems_last behind (parsesValue floats valid value)
  | .more value behind before items =>
    parsesItems_more behind before (parsesValue floats valid value) (parsesItems floats valid items)

/-- **The loop over the members** reads them as what they mean. -/
theorem parsesMembers (floats : P.floats.ReadsTokens) (valid : P.reg.FlagsValid) :
    ∀ members : JsonMembers, ParsesMembers P members
  | .last key value behind => parsesMembers_last key behind (parsesValue floats valid value)
  | .more key value behind before members => parsesMembers_more key behind before
    (parsesValue floats valid value) (parsesMembers floats valid members)

end

end Documents

end Vaudou
