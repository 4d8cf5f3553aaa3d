/-
**The JSON parser of `vd_meta.h`.**

A slice is the list of its bytes from its position on: `VD_META__SLICE_COPY` takes a list,
`VD_META__SLICE_APPLY` is what the rest of a copy is returned for. Behind the slice the text has its
terminator. The keys and strings that are pushed to the temporary buffer are byte lists; a key that a
failed `vd_meta__parse_json_string` leaves unset is the parameter `unset`.

Every procedure returns the heap and its code: `.error` is a negative code, `.ok` the rest of the slice
behind code 0. `none` is undefined behaviour (a block that is null, a descriptor that is missing).
`parseJsonObject` carries the fuel of the recursion, one for every opening brace.
-/

import Vaudou.Meta.Writer

namespace Vaudou

open Vaudou.Memory Vaudou.Text

/-- `VD_META_INVALID_JSON`. -/
def metaInvalidJson : Int := -2

/-- `VD_META_INVALID_TYPE`. -/
def metaInvalidType : Int := -3

/-- `VD_META_TYPE_NOT_FOUND`. -/
def metaTypeNotFound : Int := -4

/-- `VD_META_TYPE_MISMATCH`. -/
def metaTypeMismatch : Int := -5

/-! ### Slices -/

/-- `vd_meta__slice_expect_char`: the rest behind the character. -/
def expectChar (c : UInt8) : List UInt8 → Option (List UInt8)
  | [] => none
  | d :: rest => if d = c then some rest else none

/-- `vd_meta__slice_peek_char`. -/
def peekChar (c : UInt8) (s : List UInt8) : Bool := s.head? == some c

/-- `vd_meta__slice_read_char`: 0 at the end. -/
def readChar : List UInt8 → UInt8 × List UInt8
  | [] => (0, [])
  | c :: rest => (c, rest)

/-- A space, a tab, a newline or a carriage return. -/
def isWhitespace (c : UInt8) : Bool := c == 32 || c == 9 || c == 10 || c == 13

/-- `vd_meta__slice_skip_whitespace`. -/
def skipWhitespace (s : List UInt8) : List UInt8 := s.dropWhile isWhitespace

/-- The character of an escape. -/
def unescape (e : UInt8) : UInt8 :=
  if e = charByte 'b' then 8
  else if e = charByte 'f' then 12
  else if e = charByte 'n' then 10
  else if e = charByte 'r' then 13
  else if e = charByte 't' then 9
  else e

/-- The loop of `vd_meta__parse_json_string`: what is pushed, and the rest behind the closing
quote. Behind a backslash (`escaped`) the next character is `e`; at the end it is 0, and so is the
one behind. -/
def parseStringBody : (escaped : Bool) → List UInt8 → Option (List UInt8 × List UInt8)
  | _, [] => none
  | true, e :: rest =>
    (parseStringBody false rest).map fun parsed => (unescape e :: parsed.1, parsed.2)
  | false, c :: rest =>
    if c = charByte '"' then some ([], rest)
    else if c = 0 then none
    else if c = charByte '\\' then parseStringBody true rest
    else (parseStringBody false rest).map fun parsed => (c :: parsed.1, parsed.2)

/-- `vd_meta__parse_json_string`: the string in the buffer ends at the first 0 that was pushed. -/
def parseJsonString (s : List UInt8) : Option (List UInt8 × List UInt8) :=
  (expectChar (charByte '"') s).bind fun rest =>
    (parseStringBody false rest).map fun parsed => (parsed.1.takeWhile (· != 0), parsed.2)

/-- The key of a member; a key that is not parsed stays unset. -/
def parseKey (unset s : List UInt8) : List UInt8 × List UInt8 := (parseJsonString s).getD (unset, s)

/-- The loop of `vd_meta__json_skip_value`: whether it found the comma, and the rest. -/
def jsonSkipLoop : (brackets braces : Int) → List UInt8 → Bool × List UInt8
  | _, _, [] => (false, [])
  | brackets, braces, c :: rest =>
    if c = 0 then (false, rest)
    else if c = charByte '[' then jsonSkipLoop (brackets + 1) braces rest
    else if c = charByte ']' then jsonSkipLoop (brackets - 1) braces rest
    else if c = charByte '\x7b' then jsonSkipLoop brackets (braces + 1) rest
    else if c = charByte '\x7d' then jsonSkipLoop brackets (braces - 1) rest
    else if c = charByte ',' ∧ brackets = 0 ∧ braces = 0 then (true, rest)
    else jsonSkipLoop brackets braces rest

/-- `vd_meta__json_skip_value`. -/
def jsonSkipValue (s : List UInt8) : Bool × List UInt8 := jsonSkipLoop 0 0 s

/-! ### Values -/

/-- What the parser works with: the bits of a `long`, floating point, the registry, the allocator, and
what is in an unset key. -/
structure MetaParser where
  longBits : Nat
  floats : CFloat
  reg : MetaRegistry
  alloc : BlockAlloc
  unset : List UInt8

/-- The heap, and a negative code or the rest of the slice. -/
abbrev ParseResult := Option (BlockHeap × Except Int (List UInt8))

/-- A procedure that parses an object of a type to an address. -/
abbrev ParseProc := BlockHeap → (s : List UInt8) → (type object : Nat) → ParseResult

section Values

variable (P : MetaParser)

/-- The value of a primitive type: the memory and the rest. -/
def parsePrimitive (mem : Mem) (s : List UInt8) (object : Nat) :
    MetaPrimitiveType → Mem × List UInt8
  | .i8 => let r := strtol P.longBits s; (mem.writeInt object 1 r.1, r.2)
  | .u8 => let r := strtoul P.longBits s; (mem.writeNat object 1 r.1, r.2)
  | .i16 => let r := strtol P.longBits s; (mem.writeInt object 2 r.1, r.2)
  | .u16 => let r := strtoul P.longBits s; (mem.writeNat object 2 r.1, r.2)
  | .i32 => let r := strtol P.longBits s; (mem.writeInt object 4 r.1, r.2)
  | .u32 => let r := strtoul P.longBits s; (mem.writeNat object 4 r.1, r.2)
  | .i64 => let r := strtol 64 s; (mem.writeInt object 8 r.1, r.2)
  | .u64 => let r := strtoul 64 s; (mem.writeNat object 8 r.1, r.2)
  | .f32 => let r := P.floats.strtof s; (mem.writeNat object 4 r.1, r.2)
  | .f64 => let r := P.floats.strtod s; (mem.writeNat object 8 r.1, r.2)
  | .char8 =>
    match expectChar (charByte '"') s with
    | none => (mem, s)
    | some rest =>
      let c := readChar rest
      let mem := mem.store object [c.1]
      match expectChar (charByte '"') c.2 with
      | none => (mem, s)
      | some rest => (mem, rest)

/-- The value of a `CString`: a block with a copy of the string. -/
def parseCString (heap : BlockHeap) (s : List UInt8) (object : Nat) : ParseResult :=
  match parseJsonString s with
  | none => some (heap, .ok s)
  | some (key, rest) =>
    (P.alloc.alloc heap (key.length + 1)).map fun granted =>
      let mem := (granted.1.mem.writeNat object 8 granted.2).store granted.2 (key ++ [0])
      ({ granted.1 with mem := mem }, .ok rest)

/-- `vd_meta__parse_json_descriptor`. -/
def parseJsonDescriptor (parseObject : ParseProc) (type : Nat) (descriptor : Option MetaDescriptor)
    (heap : BlockHeap) (s : List UInt8) (object : Nat) : ParseResult :=
  if peekChar (charByte '\x7b') s then parseObject heap s type object
  else
    descriptor.bind fun descriptor =>
      match descriptor.typeClass with
      | .primitive =>
        let parsed := parsePrimitive P heap.mem s object descriptor.primitive
        some ({ heap with mem := parsed.1 }, .ok parsed.2)
      | .string =>
        match descriptor.string with
        | .cstring => parseCString P heap s object
        | .slice => some (heap, .ok s)
      | .array => some (heap, .ok s)
      | .object => some (heap, .ok s)

/-- `vd_meta_field_array_add`: the heap, and where the new element is. -/
def fieldArrayAdd (field : MetaField) (size : Nat) (heap : BlockHeap) (object : Nat) :
    Option (BlockHeap × Nat) :=
  let props := field.intrusiveProps.getD P.reg.props
  let location := object + field.offset
  let l := props.len heap.mem (heap.mem.readNat location 8)
  (props.add heap location size).map fun heap => (heap, heap.mem.readNat location 8 + l * size)

/-- An element of a fixed array, `i` from the start. -/
def parseFixedElement (parseObject : ParseProc) (field : MetaField) (i : Nat) (heap : BlockHeap)
    (s : List UInt8) (object : Nat) : ParseResult :=
  if field.fixedArrayLen ≤ i then some (heap, .error metaInvalidJson)
  else
    (metaGetDescriptor P.reg field.type).bind fun descriptor =>
      parseJsonDescriptor P parseObject field.type (some descriptor) heap s
        (object + field.offset + i * descriptor.size)

/-- A new element of an intrusive array. -/
def parseIntrusiveElement (parseObject : ParseProc) (field : MetaField) (heap : BlockHeap)
    (s : List UInt8) (object : Nat) : ParseResult :=
  (metaGetDescriptor P.reg field.type).bind fun descriptor =>
    (fieldArrayAdd P field descriptor.size heap object).bind fun added =>
      parseJsonDescriptor P parseObject field.type (some descriptor) added.1 s added.2

/-- Continue with the rest, unless the code is negative. -/
def ParseResult.andThen (result : ParseResult) (next : BlockHeap → List UInt8 → ParseResult) :
    ParseResult :=
  result.bind fun
    | (heap, .error code) => some (heap, .error code)
    | (heap, .ok rest) => next heap rest

/-- The loop over the elements in `vd_meta__parse_json_field`. -/
def parseElements (parseObject : ParseProc) (field : MetaField) (object : Nat) :
    (fuel i : Nat) → BlockHeap → List UInt8 → ParseResult
  | 0, _, _, _ => none
  | fuel + 1, i, heap, s =>
    let fixed := if field.isFixedArray then
        parseFixedElement P parseObject field i heap (skipWhitespace s) object
      else some (heap, .ok (skipWhitespace s))
    fixed.andThen fun heap s =>
      let intrusive := if field.isIntrusiveArray then
          parseIntrusiveElement P parseObject field heap s object
        else some (heap, .ok s)
      intrusive.andThen fun heap s =>
        match expectChar (charByte ']') s with
        | some rest => some (heap, .ok rest)
        | none =>
          match expectChar (charByte ',') s with
          | some rest => parseElements parseObject field object fuel (i + 1) heap rest
          | none => some (heap, .error metaInvalidJson)

/-- `vd_meta__parse_json_field`. The test `!field->flags & ...` holds for a field without flags. Every
round of the loop takes a comma. -/
def parseJsonField (parseObject : ParseProc) (field : MetaField) (heap : BlockHeap)
    (s : List UInt8) (object : Nat) : ParseResult :=
  let s := skipWhitespace s
  match expectChar (charByte '[') s with
  | some rest =>
    if field.flags = 0 then some (heap, .error metaInvalidJson)
    else parseElements P parseObject field object (rest.length + 1) 0 heap rest
  | none =>
    match metaGetDescriptor P.reg field.type with
    | none => some (heap, .error metaDescriptorNotFound)
    | some descriptor => parseJsonDescriptor P parseObject field.type (some descriptor) heap s object

/-! ### Objects -/

/-- `find_field`. -/
def findField (descriptor : MetaDescriptor) (name : List UInt8) : Option MetaField :=
  descriptor.fields.find? fun field => field.name == name

/-- The loop over the members in `vd_meta__parse_json_object`. Every round takes a colon. -/
def parseMembers (parseObject : ParseProc) (descriptor : MetaDescriptor) (object : Nat) :
    (fuel : Nat) → BlockHeap → List UInt8 → ParseResult
  | 0, _, _ => none
  | fuel + 1, heap, s =>
    let key := parseKey P.unset (skipWhitespace s)
    match expectChar (charByte ':') (skipWhitespace key.2) with
    | none => some (heap, .error metaInvalidJson)
    | some rest =>
      match findField descriptor key.1 with
      | none =>
        match jsonSkipValue (skipWhitespace rest) with
        | (false, _) => some (heap, .error metaInvalidJson)
        | (true, rest) => parseMembers parseObject descriptor object fuel heap rest
      | some field =>
        (parseJsonField P parseObject field heap (skipWhitespace rest)
            (object + field.offset)).andThen fun heap rest =>
          match expectChar (charByte '\x7d') (skipWhitespace rest) with
          | some rest => some (heap, .ok rest)
          | none =>
            match expectChar (charByte ',') (skipWhitespace rest) with
            | some rest => parseMembers parseObject descriptor object fuel heap rest
            | none => some (heap, .error metaInvalidJson)

/-- `vd_meta__parse_json_object`. -/
def parseJsonObject : (fuel : Nat) → ParseProc
  | 0, _, _, _, _ => none
  | fuel + 1, heap, s, type, object =>
    match metaGetDescriptor P.reg type with
    | none => some (heap, .error metaDescriptorNotFound)
    | some descriptor =>
      match expectChar (charByte '\x7b') (skipWhitespace s) with
      | none => some (heap, .error metaInvalidJson)
      | some rest =>
        parseMembers P (parseJsonObject fuel) descriptor object (rest.length + 1) heap rest

/-! ### The type of the text -/

/-- The type that a text names, where one is expected. -/
def namedType (expected : Nat) (name : List UInt8) : Except Int Nat :=
  let id := metaGetId P.reg name
  if id = 0 then .error metaInvalidType
  else if expected ≠ 0 ∧ id ≠ expected then .error metaTypeMismatch
  else .ok id

/-- The loop of `vd_meta__json_get_object_type`. Every round takes a colon. -/
def objectTypeLoop (expected : Nat) : (fuel : Nat) → List UInt8 → Option (Except Int Nat)
  | 0, _ => none
  | fuel + 1, s =>
    match expectChar (charByte '\x7d') (skipWhitespace s) with
    | some _ => some (if expected ≠ 0 then .ok expected else .error metaTypeNotFound)
    | none =>
      if (skipWhitespace s).isEmpty then some (.error metaInvalidJson)
      else
        let key := parseKey P.unset (skipWhitespace s)
        match expectChar (charByte ':') (skipWhitespace key.2) with
        | none => some (.error metaInvalidJson)
        | some rest =>
          if key.1 = typeNameKey then
            some (namedType P expected (parseKey P.unset (skipWhitespace rest)).1)
          else
            let behind := skipWhitespace (jsonSkipValue (skipWhitespace rest)).2
            objectTypeLoop expected fuel ((expectChar (charByte ',') behind).getD behind)

/-- `vd_meta__json_get_object_type`. -/
def jsonGetObjectType (expected : Nat) (s : List UInt8) : Option (Except Int Nat) :=
  match expectChar (charByte '\x7b') (skipWhitespace s) with
  | none => some (.error metaInvalidJson)
  | some rest => objectTypeLoop P expected (rest.length + 1) rest

/-- The code, and `*out_object` and `*options->out_type` where they are set. -/
structure MetaParsed where
  heap : BlockHeap
  ret : Int
  object : Option Nat
  type : Option Nat

/-- The code of a result. -/
def resultCode : Except Int (List UInt8) → Int
  | .ok _ => 0
  | .error code => code

/-- `vd_meta_parse_json`. No text opens more braces than it has bytes. -/
def metaParseJson (expected : Nat) (heap : BlockHeap) (json : List UInt8) : Option MetaParsed :=
  (jsonGetObjectType P expected json).bind fun
    | .error code => some ⟨heap, code, none, none⟩
    | .ok type =>
      match metaGetDescriptor P.reg type with
      | none => some ⟨heap, metaDescriptorNotFound, none, none⟩
      | some descriptor =>
        (P.alloc.alloc heap descriptor.size).bind fun granted =>
          let zeroed := granted.1.mem.store granted.2 (List.replicate descriptor.size 0)
          (parseJsonObject P (json.length + 1) { granted.1 with mem := zeroed } json type
              granted.2).map fun parsed =>
            ⟨parsed.1, resultCode parsed.2, some granted.2, some type⟩

end Values

end Vaudou
