/-
**The round trip of the JSON procedures.**

`ValueText` says that a value has a text: the writer writes it, and the parser reads it back to any
address of its heap. A value of an object type has one if its fields have (`fieldsText`, by induction on
the fields that are left, and `objectText`), and so every object in memory has one (`valueText`, by
induction on `HoldsObject`).

* `metaParseJson_metaWriteJson` — the text of an object is parsed to an object that is equal field by
  field.
-/

import Vaudou.Meta.Objects

namespace Vaudou

open Vaudou.Memory Vaudou.Text

section RoundTrip

variable {P : MetaParser} {mem : Mem} {type object : Nat} {rest : List UInt8}

/-! ### Primitive values -/

/-- **A signed integer is read back** by a type that is wide enough. -/
theorem strtol_readInt {bits width : Nat} (pos : 0 < width) (narrow : width ≤ 8)
    (fits : 8 * width ≤ bits) (separated : Separated rest) :
    strtol bits (snprintf32 (decimalInt (mem.readInt object width)) ++ rest) =
      (mem.readInt object width, rest) := by
  obtain ⟨low, high⟩ := readInt_range mem object width
  have power : 256 ^ width = 2 ^ (8 * width) := by rw [Nat.pow_mul]
  have half : 2 * 2 ^ (bits - 1) = 2 ^ bits := by
    rw [← Nat.pow_succ', Nat.succ_eq_add_one, Nat.sub_add_cancel (by omega)]
  have wide : 2 ^ (8 * width) ≤ 2 ^ bits := Nat.pow_le_pow_right (by norm_num) fits
  have short : 2 ^ (8 * width) ≤ 2 ^ 64 := Nat.pow_le_pow_right (by norm_num) (by omega)
  rw [power] at low high
  have cast : ((2 ^ (bits - 1) : Nat) : Int) = 2 ^ (bits - 1) := by norm_cast
  rw [snprintf32_decimalInt (by omega)]
  exact strtol_decimalInt (by omega) (by omega) separated.ends

/-- **An unsigned integer is read back** by a type that is wide enough. -/
theorem strtoul_readNat {bits width : Nat} (narrow : width ≤ 8) (fits : 8 * width ≤ bits)
    (separated : Separated rest) :
    strtoul bits (snprintf32 (decimal (mem.readNat object width)) ++ rest) =
      (mem.readNat object width, rest) := by
  have small := readNat_lt mem object width
  rw [show 256 ^ width = 2 ^ (8 * width) by rw [Nat.pow_mul]] at small
  have wide : 2 ^ (8 * width) ≤ 2 ^ bits := Nat.pow_le_pow_right (by norm_num) fits
  have short : 2 ^ (8 * width) ≤ 2 ^ 64 := Nat.pow_le_pow_right (by norm_num) (by omega)
  rw [snprintf32_decimal (by omega)]
  exact strtoul_decimal (by omega) separated.ends

variable (mem object) in
/-- **A primitive value is read back** byte for byte, and nothing else is written. -/
theorem parsePrimitive_text (long : 32 ≤ P.longBits) {kind : MetaPrimitiveType}
    (integer : kind.isFloat = false) (separated : Separated rest) (m : Mem) (x : Nat) :
    ∃ m', parsePrimitive P m (primitiveText P.floats mem object kind ++ rest) x kind = (m', rest) ∧
      ChangedWithin m m' x kind.width ∧ m'.load x kind.width = mem.load object kind.width := by
  have signed : ∀ {bits width : Nat}, 0 < width → width ≤ 8 → 8 * width ≤ bits →
      (m.writeInt x width (strtol bits (snprintf32 (decimalInt (mem.readInt object width)) ++ rest)).1,
        (strtol bits (snprintf32 (decimalInt (mem.readInt object width)) ++ rest)).2) =
          (m.writeInt x width (mem.readInt object width), rest) := by
    intro bits width pos narrow fits
    rw [strtol_readInt pos narrow fits separated]
  have unsigned : ∀ {bits width : Nat}, width ≤ 8 → 8 * width ≤ bits →
      (m.writeNat x width (strtoul bits (snprintf32 (decimal (mem.readNat object width)) ++ rest)).1,
        (strtoul bits (snprintf32 (decimal (mem.readNat object width)) ++ rest)).2) =
          (m.writeNat x width (mem.readNat object width), rest) := by
    intro bits width narrow fits
    rw [strtoul_readNat narrow fits separated]
  cases kind with
  | i8 => exact ⟨_, signed (by omega) (by omega) (by omega), writeInt_changedWithin _ _ _ _,
      load_writeInt_readInt _ _⟩
  | u8 => exact ⟨_, unsigned (by omega) (by omega), writeNat_changedWithin _ _ _ _,
      load_writeNat_readNat _ _⟩
  | i16 => exact ⟨_, signed (by omega) (by omega) (by omega), writeInt_changedWithin _ _ _ _,
      load_writeInt_readInt _ _⟩
  | u16 => exact ⟨_, unsigned (by omega) (by omega), writeNat_changedWithin _ _ _ _,
      load_writeNat_readNat _ _⟩
  | i32 => exact ⟨_, signed (by omega) (by omega) (by omega), writeInt_changedWithin _ _ _ _,
      load_writeInt_readInt _ _⟩
  | u32 => exact ⟨_, unsigned (by omega) (by omega), writeNat_changedWithin _ _ _ _,
      load_writeNat_readNat _ _⟩
  | i64 => exact ⟨_, signed (by omega) (by omega) (by omega), writeInt_changedWithin _ _ _ _,
      load_writeInt_readInt _ _⟩
  | u64 => exact ⟨_, unsigned (by omega) (by omega), writeNat_changedWithin _ _ _ _,
      load_writeNat_readNat _ _⟩
  | f32 => exact absurd integer (by decide)
  | f64 => exact absurd integer (by decide)
  | char8 =>
    -- the character is read by itself, whatever it is
    refine ⟨m.store x [mem object], ?_, store_changedWithin m x [mem object], ?_⟩
    · show parsePrimitive P m (quoted [mem object] ++ rest) x .char8 = _
      rw [quoted_append, parsePrimitive, expectChar_cons]
      simp only [List.cons_append, List.nil_append, readChar]
      rw [expectChar_cons]
    · exact load_store_same m x [mem object]

variable (P mem object) in
/-- A primitive value starts with a digit, a minus or a quote. -/
theorem primitiveText_head {kind : MetaPrimitiveType} (integer : kind.isFloat = false) :
    ∃ c text, primitiveText P.floats mem object kind = c :: text ∧
      (isDigit c = true ∨ c = charByte '-' ∨ c = charByte '"') := by
  have unsigned : ∀ n, ∃ c text, snprintf32 (decimal n) = c :: text ∧
      (isDigit c = true ∨ c = charByte '-' ∨ c = charByte '"') := by
    intro n
    obtain ⟨c, text, split⟩ := List.exists_cons_of_ne_nil (decimal_ne_nil (n := n))
    refine ⟨c, text.take 30, by rw [split]; rfl, Or.inl ?_⟩
    exact decimal_digits n c (split ▸ List.mem_cons_self)
  have signed : ∀ v, ∃ c text, snprintf32 (decimalInt v) = c :: text ∧
      (isDigit c = true ∨ c = charByte '-' ∨ c = charByte '"') := by
    intro v
    unfold decimalInt
    split
    · exact ⟨_, _, rfl, Or.inr (Or.inl rfl)⟩
    · exact unsigned v.natAbs
  cases kind with
  | i8 | i16 | i32 | i64 => exact signed _
  | u8 | u16 | u32 | u64 => exact unsigned _
  | f32 | f64 => exact absurd integer (by decide)
  | char8 => exact ⟨_, _, rfl, Or.inr (Or.inr rfl)⟩

/-- The first character of a value that is no object. -/
theorem head_plain {c : UInt8} (head : isDigit c = true ∨ c = charByte '-' ∨ c = charByte '"') :
    isWhitespace c = false ∧ c ≠ charByte '[' ∧ c ≠ charByte '\x7b' := by
  rcases head with digit | rfl | rfl
  · obtain ⟨space, -, -⟩ := digit_plain digit
    have bracket : charByte '[' = 91 := rfl
    have brace : charByte '\x7b' = 123 := rfl
    rw [bracket, brace]
    simp only [isDigit, isWhitespace, Bool.and_eq_true, decide_eq_true_eq] at digit ⊢
    grind
  · decide
  · decide

/-! ### The text of a value -/

/-- A result of the parser: `bytes` bytes were requested, only the value at `x` was written, and the
value and the strings of it are there. -/
def ReadsBack (P : MetaParser) (mem : Mem) (start heap : BlockHeap) (used bytes : Nat)
    (type object x extent : Nat) (rest : List UInt8) (result : ParseResult) : Prop :=
  ∃ heap', result = some (heap', .ok rest) ∧ Granted P.alloc start heap' (used + bytes) ∧
    heap.Kept heap' x extent ∧ ParsedObject P.reg mem heap heap' type object x

/-- **The text of a value**: the writer writes it, and the parser reads it back to any address. -/
structure ValueText (P : MetaParser) (mem : Mem) (type object : Nat) (descriptor : MetaDescriptor)
    (text : List UInt8) (bytes : Nat) : Prop where
  written : ∃ N, ∀ fuel ≥ N,
    writeJsonDescriptor P.floats P.reg mem fuel object type (-1) = some (0, text)
  few : bytes ≤ text.length
  head : ∃ c tail, text = c :: tail ∧ isWhitespace c = false ∧ c ≠ charByte '['
  reads : ∀ {fuel budget used x : Nat} {start heap : BlockHeap} {rest : List UInt8},
    text.length ≤ fuel → Roomy P.alloc start budget → Granted P.alloc start heap used →
      used + bytes ≤ budget → heap.OwnsRange x descriptor.extent → Separated rest →
        ReadsBack P mem start heap used bytes type object x descriptor.extent rest
          (parseJsonDescriptor P (parseJsonObject P fuel) type (some descriptor) heap (text ++ rest) x)

variable {descriptor : MetaDescriptor}

/-- A value that is no object is read by its own type. -/
theorem parseJsonDescriptor_plain {parseObject : ParseProc} {heap : BlockHeap} {c : UInt8}
    {tail : List UInt8} {x : Nat} (brace : c ≠ charByte '\x7b') :
    parseJsonDescriptor P parseObject type (some descriptor) heap (c :: tail) x =
      match descriptor.typeClass with
      | .primitive =>
        let parsed := parsePrimitive P heap.mem (c :: tail) x descriptor.primitive
        some ({ heap with mem := parsed.1 }, .ok parsed.2)
      | .string =>
        match descriptor.string with
        | .cstring => parseCString P heap (c :: tail) x
        | .slice => some (heap, .ok (c :: tail))
      | .array => some (heap, .ok (c :: tail))
      | .object => some (heap, .ok (c :: tail)) := by
  have other : peekChar (charByte '\x7b') (c :: tail) = false :=
    beq_eq_false_iff_ne.mpr fun same => brace (Option.some.inj same)
  unfold parseJsonDescriptor
  rw [other]
  rfl

/-- **The text of a primitive value.** -/
theorem primitiveText_value (long : 32 ≤ P.longBits)
    (found : metaGetDescriptor P.reg type = some descriptor)
    (kind : descriptor.typeClass = .primitive) (integer : descriptor.primitive.isFloat = false) :
    ValueText P mem type object descriptor (primitiveText P.floats mem object descriptor.primitive)
      0 := by
  obtain ⟨c, tail, split, head⟩ := primitiveText_head P mem object integer
  obtain ⟨visible, bracket, brace⟩ := head_plain head
  have extent : descriptor.extent = descriptor.primitive.width := by
    rw [MetaDescriptor.extent, kind]
  refine ⟨⟨1, fun fuel enough => ?_⟩, Nat.zero_le _, ⟨c, tail, split, visible, bracket⟩, ?_⟩
  · obtain ⟨fuel, rfl⟩ := Nat.exists_eq_add_of_le' enough
    rw [writeJsonDescriptor, found]
    simp only [kind]
  · intro fuel budget used x start heap rest _ _ granted _ _ separated
    obtain ⟨m', parsed, change, bytes⟩ :=
      parsePrimitive_text mem object long integer separated heap.mem x
    refine ⟨{ heap with mem := m' }, ?_, granted.write m', ?_, .primitive found kind bytes⟩
    · rw [split] at parsed ⊢
      rw [List.cons_append, parseJsonDescriptor_plain brace, kind]
      rw [List.cons_append] at parsed
      simp only [parsed]
    · rw [extent]
      exact .write change

variable (rest) in
/-- **A string is parsed to a new block.** -/
theorem parseCString_quoted {content : List UInt8} {start heap : BlockHeap} {used budget x : Nat}
    (found : metaGetDescriptor P.reg type = some descriptor) (kind : descriptor.typeClass = .string)
    (is : IsCString mem (mem.readNat object 8) content) (plain : PlainContent content)
    (roomy : Roomy P.alloc start budget) (granted : Granted P.alloc start heap used)
    (fits : used + (content.length + 1) ≤ budget) (owns : heap.OwnsRange x 8) :
    ReadsBack P mem start heap used (content.length + 1) type object x 8 rest
      (parseCString P heap (quoted content ++ rest) x) := by
  obtain ⟨⟨heap', p⟩, alloc⟩ := Option.isSome_iff_exists.mp (roomy heap used _ granted fits)
  have string := newString_alloc alloc owns is.nonzero
  refine ⟨{ heap' with mem := (heap'.mem.writeNat x 8 p).store p (content ++ [0]) }, ?_, ?_,
    string.kept, ?_⟩
  · simp only [parseCString, parseJsonString_quoted plain is.nonzero, alloc, Option.map_some]
  · exact (granted.alloc alloc).write _
  · exact .string found kind is string.is string.owns string.new

/-- **The text of a string.** -/
theorem stringText_value {content : List UInt8}
    (found : metaGetDescriptor P.reg type = some descriptor) (kind : descriptor.typeClass = .string)
    (cstring : descriptor.string = .cstring) (nonnull : mem.readNat object 8 ≠ 0)
    (is : IsCString mem (mem.readNat object 8) content) (plain : PlainContent content) :
    ValueText P mem type object descriptor (quoted content) (content.length + 1) := by
  have extent : descriptor.extent = 8 := by rw [MetaDescriptor.extent, kind]
  refine ⟨⟨1, fun fuel enough => ?_⟩, ?_, ⟨_, _, rfl, by decide, by decide⟩, ?_⟩
  · obtain ⟨fuel, rfl⟩ := Nat.exists_eq_add_of_le' enough
    rw [writeJsonDescriptor, found]
    simp only [kind, cstring]
    rw [pushCString, if_neg nonnull, is.strlen, Option.map_some, is.loaded, Option.map_some]
  · simp [quoted]
  · intro fuel budget used x start heap rest _ roomy granted fits owns _
    rw [extent] at owns ⊢
    have reads := parseCString_quoted rest found kind is plain roomy granted fits owns
    rw [quoted_append] at reads ⊢
    rw [parseJsonDescriptor_plain (by decide), kind]
    simp only [cstring]
    exact reads

/-! ### The text of an object -/

/-- The fields that were parsed so far, to the object at `x`. -/
def ParsedFields (P : MetaParser) (mem : Mem) (base heap : BlockHeap) (object x : Nat)
    (fields : List MetaField) : Prop :=
  ∀ field ∈ fields,
    ParsedObject P.reg mem base heap field.type (object + field.offset) (x + field.offset)

/-- **The text of the fields that are left**, behind the fields `done`: the loop over the members reads
it up to the closing brace. -/
structure MembersText (P : MetaParser) (mem : Mem) (descriptor : MetaDescriptor) (object : Nat)
    (done fields : List MetaField) (text : List UInt8) (bytes : Nat) : Prop where
  written : ∃ N, ∀ fuel ≥ N,
    writeFields P.reg mem (writeJsonDescriptor P.floats P.reg mem fuel) object (-1) fields = some text
  few : bytes ≤ text.length
  reads : ∀ (fuel n : Nat) (rest : List UInt8) {budget used x : Nat} {start base heap : BlockHeap},
    text.length ≤ fuel → text.length < n → Roomy P.alloc start budget →
      Granted P.alloc start heap used → used + bytes ≤ budget → base.live ⊆ heap.live →
        base.OwnsRange x descriptor.size → ParsedFields P mem base heap object x done →
          ∃ heap', parseMembers P (parseJsonObject P fuel) descriptor x n heap
              (text ++ charByte '\x7d' :: rest) = some (heap', .ok rest) ∧
            Granted P.alloc start heap' (used + bytes) ∧ heap.Kept heap' x descriptor.size ∧
              ParsedFields P mem base heap' object x (done ++ fields)

/-- The value of a field that is no array. -/
theorem writeJsonField_plain {write : WriteProc} {field : MetaField} {pretty : Int}
    (plain : field.flags = 0) : writeJsonField P.reg mem write object field pretty =
      (write (object + field.offset) field.type pretty).map fun value => (0, value.2) := by
  have fixed : field.isFixedArray = false := by rw [MetaField.isFixedArray, plain, Nat.zero_testBit]
  have intrusive : field.isIntrusiveArray = false := by
    rw [MetaField.isIntrusiveArray, plain, Nat.zero_testBit]
  rw [writeJsonField, fixed, intrusive, if_neg Bool.false_ne_true, if_neg Bool.false_ne_true]

/-- The last field of an object that is written. -/
theorem writeFields_last {write : WriteProc} {field : MetaField} {text : List UInt8}
    (plain : field.flags = 0)
    (written : write (object + field.offset) field.type (-1) = some (0, text)) :
    writeFields P.reg mem write object (-1) [field] = some
      (quoted field.name ++ charByte ':' :: text) := by
  rw [writeFields, writeFields, writeJsonField_plain plain, written]
  simp [spaces, ifPretty, ascii]

/-- A field with others behind it that is written. -/
theorem writeFields_more {write : WriteProc} {field next : MetaField} {later : List MetaField}
    {text laterText : List UInt8} (plain : field.flags = 0)
    (written : write (object + field.offset) field.type (-1) = some (0, text))
    (writtenLater : writeFields P.reg mem write object (-1) (next :: later) = some laterText) :
    writeFields P.reg mem write object (-1) (field :: next :: later) =
      some (quoted field.name ++ charByte ':' :: (text ++ charByte ',' :: laterText)) := by
  rw [writeFields, writeJsonField_plain plain, written, writtenLater]
  simp [spaces, ifPretty, ascii]

/-- The text of an object, with the type name in front of its members. -/
def typedObject (name members : List UInt8) : List UInt8 :=
  charByte '\x7b' :: (quoted typeNameKey ++ charByte ':' :: (quoted name ++ charByte ',' ::
    (members ++ [charByte '\x7d'])))

/-- **An object that is written**, from its members. -/
theorem writeJsonObject_members {write : WriteProc} {members : List UInt8}
    (found : metaGetDescriptor P.reg type = some descriptor)
    (written : writeFields P.reg mem write object (-1) descriptor.fields = some members) :
    writeJsonObject P.reg mem write object type (-1) = some (0, typedObject descriptor.name members) :=
      by
  rw [writeJsonObject, found]
  show (writeFields P.reg mem write object (-1) descriptor.fields).map _ = _
  rw [written]
  simp [typedObject, spaces, ifPretty, deeper, ascii]

/-- A field is found by its name. -/
theorem findField_of_mem (json : JsonObject P.reg descriptor) {field : MetaField}
    (member : field ∈ descriptor.fields) : findField descriptor field.name = some field :=
  find?_of_nodup MetaField.name json.distinct member

/-- **A round of the loop over the members**, up to what stands behind the value. -/
theorem parseMembers_member {parseObject : ParseProc} {field : MetaField} {fieldType : MetaDescriptor}
    {heap heap' : BlockHeap} {text behind : List UInt8} {n x : Nat} (json : JsonObject P.reg descriptor)
    (member : field ∈ descriptor.fields) (found : metaGetDescriptor P.reg field.type = some fieldType)
    (head : ∃ c tail, text = c :: tail ∧ isWhitespace c = false ∧ c ≠ charByte '[')
    (value : parseJsonDescriptor P parseObject field.type (some fieldType) heap (text ++ behind)
      (x + field.offset) = some (heap', .ok behind)) :
    parseMembers P parseObject descriptor x (n + 1) heap
        (quoted field.name ++ charByte ':' :: (text ++ behind)) =
      match expectChar (charByte '\x7d') (skipWhitespace behind) with
      | some rest => some (heap', .ok rest)
      | none =>
        match expectChar (charByte ',') (skipWhitespace behind) with
        | some rest => parseMembers P parseObject descriptor x n heap' rest
        | none => some (heap', .error metaInvalidJson) := by
  have identifier := json.names field member
  have colon : skipWhitespace (charByte ':' :: (text ++ behind)) = charByte ':' :: (text ++ behind) :=
    skipWhitespace_cons (by decide)
  obtain ⟨c, tail, rfl, visible, bracket⟩ := head
  have first : skipWhitespace (c :: tail ++ behind) = c :: tail ++ behind := skipWhitespace_cons visible
  have parsed : parseJsonField P parseObject field heap (c :: tail ++ behind) (x + field.offset) =
      some (heap', .ok behind) := by
    rw [parseJsonField, first, List.cons_append, expectChar_ne bracket, found]
    exact value
  rw [parseMembers, skipWhitespace_quoted, parseKey_quoted identifier.plain identifier.nonzero]
  simp only [colon, expectChar_cons, findField_of_mem json member, first, parsed]
  rfl

/-- **One field more is parsed**, and the fields before it stay. -/
theorem ValueText.field_reads {field : MetaField} {fieldType : MetaDescriptor}
    {done later : List MetaField} {text : List UInt8} {bytes budget used x : Nat} (fuel : Nat)
      (behind : List UInt8)
    {start base heap : BlockHeap} (types : JsonTypes P.reg) (json : JsonObject P.reg descriptor)
    (fields : descriptor.fields = done ++ field :: later)
    (found : metaGetDescriptor P.reg field.type = some fieldType)
    (value : ValueText P mem field.type (object + field.offset) fieldType text bytes)
    (enough : text.length ≤ fuel) (roomy : Roomy P.alloc start budget)
    (granted : Granted P.alloc start heap used) (fits : used + bytes ≤ budget)
    (live : base.live ⊆ heap.live) (owns : base.OwnsRange x descriptor.size)
    (parsed : ParsedFields P mem base heap object x done) (separated : Separated behind) :
    ∃ heap', parseJsonDescriptor P (parseJsonObject P fuel) field.type (some fieldType) heap
        (text ++ behind) (x + field.offset) = some (heap', .ok behind) ∧
      Granted P.alloc start heap' (used + bytes) ∧ heap.Kept heap' x descriptor.size ∧
        ParsedFields P mem base heap' object x (done ++ [field]) := by
  have member : field ∈ descriptor.fields := by
    rw [fields]
    exact List.mem_append_right _ List.mem_cons_self
  have inside := json.inside member found
  have region : base.OwnsRange (x + field.offset) fieldType.extent :=
    owns.part (Nat.le_add_right _ _) (by omega)
  obtain ⟨heap', result, granted, kept, new⟩ :=
    value.reads enough roomy granted fits (region.mono live) separated
  refine ⟨heap', result, granted, kept.widen (Nat.le_add_right _ _) (by omega), ?_⟩
  intro earlier earlierMember
  rcases List.mem_append.mp earlierMember with before | here
  · -- an earlier field is apart from the region of this one
    have among : earlier ∈ descriptor.fields := by
      rw [fields]
      exact List.mem_append_left _ before
    obtain ⟨earlierType, foundEarlier, -, insideEarlier⟩ := json.types earlier among
    have pairs := json.apart
    rw [fields] at pairs
    have apart := (List.pairwise_append.mp pairs).2.2 earlier before field List.mem_cons_self
      earlierType fieldType foundEarlier found
    have ownsEarlier : heap.OwnsRange (x + earlier.offset) earlierType.extent :=
      (owns.part (Nat.le_add_right _ _) (by omega)).mono live
    exact (parsed earlier before).kept types foundEarlier kept region ownsEarlier (by omega)
  · obtain rfl := List.mem_singleton.mp here
    exact new.mono_base live

/-- **The fields of an object have a text**, if their values have. -/
theorem membersText (types : JsonTypes P.reg) (json : JsonObject P.reg descriptor) :
    ∀ {fields : List MetaField} (done : List MetaField), fields ≠ [] →
      descriptor.fields = done ++ fields →
      (∀ field ∈ fields, ∃ fieldType text bytes, metaGetDescriptor P.reg field.type = some fieldType ∧
        ValueText P mem field.type (object + field.offset) fieldType text bytes) →
      ∃ text bytes, MembersText P mem descriptor object done fields text bytes
  | [field], done, _, split, values => by
    obtain ⟨fieldType, text, bytes, found, value⟩ := values field List.mem_cons_self
    have member : field ∈ descriptor.fields := by
      rw [split]
      exact List.mem_append_right _ List.mem_cons_self
    obtain ⟨N, written⟩ := value.written
    have few := value.few
    refine ⟨quoted field.name ++ charByte ':' :: text, bytes, ⟨N, fun fuel enough => ?_⟩, ?_, ?_⟩
    · exact writeFields_last (json.plain field member) (written fuel enough)
    · rw [List.length_append, List.length_cons]
      omega
    · intro fuel n rest budget used x start base heap enough rounds roomy granted fits live owns parsed
      obtain ⟨n, rfl⟩ := Nat.exists_eq_add_of_lt (Nat.zero_lt_of_lt rounds)
      rw [List.length_append, List.length_cons] at enough
      obtain ⟨heap', result, granted, kept, fields⟩ :=
        value.field_reads fuel (charByte '\x7d' :: rest) types json split found
          (by omega) roomy granted fits
          live owns parsed (fun c head => Or.inr (Option.some.inj head).symm)
      refine ⟨heap', ?_, granted, kept, fields⟩
      rw [List.append_assoc, List.cons_append, Nat.zero_add,
        parseMembers_member json member found value.head result, skipWhitespace_cons (by decide),
        expectChar_cons]
  | field :: next :: later, done, _, split, values => by
    obtain ⟨fieldType, text, bytes, found, value⟩ := values field List.mem_cons_self
    have member : field ∈ descriptor.fields := by
      rw [split]
      exact List.mem_append_right _ List.mem_cons_self
    obtain ⟨laterText, laterBytes, laterMembers⟩ := membersText types json
      (done ++ [field]) (List.cons_ne_nil next later) (by rw [split, List.append_assoc]; rfl)
      fun field member => values field (List.mem_cons_of_mem _ member)
    obtain ⟨N, written⟩ := value.written
    obtain ⟨N', writtenLater⟩ := laterMembers.written
    have few := value.few
    have fewLater := laterMembers.few
    refine ⟨quoted field.name ++ charByte ':' :: (text ++ charByte ',' :: laterText),
      bytes + laterBytes, ⟨max N N', fun fuel enough => ?_⟩, ?_, ?_⟩
    · exact writeFields_more (json.plain field member) (written fuel (le_of_max_le_left enough))
        (writtenLater fuel (le_of_max_le_right enough))
    · rw [List.length_append, List.length_cons, List.length_append, List.length_cons]
      omega
    · intro fuel n rest budget used x start base heap enough rounds roomy granted fits live owns parsed
      obtain ⟨n, rfl⟩ := Nat.exists_eq_add_of_lt (Nat.zero_lt_of_lt rounds)
      rw [List.length_append, List.length_cons, List.length_append, List.length_cons] at enough rounds
      obtain ⟨heap', result, granted, kept, fields⟩ :=
        value.field_reads fuel (charByte ',' ::
          (laterText ++ charByte '\x7d' :: rest)) types json split found
          (by omega) roomy granted (by omega) live owns parsed
          (fun c head => Or.inl (Option.some.inj head).symm)
      obtain ⟨heap'', resultLater, granted, keptLater, fields⟩ :=
        laterMembers.reads fuel n rest (by omega) (by omega) roomy granted (by omega)
          (List.Subset.trans live kept.live) owns fields
      refine ⟨heap'', ?_, by rwa [Nat.add_assoc] at granted, kept.trans keptLater, ?_⟩
      · rw [List.append_assoc, List.cons_append, List.append_assoc, List.cons_append, Nat.zero_add,
          parseMembers_member json member found value.head result, skipWhitespace_cons (by decide),
          expectChar_ne (by decide), expectChar_cons]
        exact resultLater
      · rw [List.append_assoc] at fields
        exact fields

/-- **The member of the type name is skipped.** -/
theorem parseMembers_typeName {parseObject : ParseProc} {heap : BlockHeap} {later : List UInt8}
    {n x : Nat} (json : JsonObject P.reg descriptor) :
    parseMembers P parseObject descriptor x (n + 1) heap
        (quoted typeNameKey ++ charByte ':' :: (quoted descriptor.name ++ charByte ',' :: later)) =
      parseMembers P parseObject descriptor x n heap later := by
  have unknown : findField descriptor typeNameKey = none := by
    refine List.find?_eq_none.mpr fun field member same => ?_
    exact (json.names field member).ne_typeNameKey (beq_iff_eq.mp same)
  have colon : skipWhitespace (charByte ':' :: (quoted descriptor.name ++ charByte ',' :: later)) =
      charByte ':' :: (quoted descriptor.name ++ charByte ',' :: later) :=
    skipWhitespace_cons (by decide)
  rw [parseMembers, skipWhitespace_quoted, parseKey_quoted typeNameKey_plain typeNameKey_nonzero]
  simp only [colon, expectChar_cons, unknown, skipWhitespace_quoted, jsonSkipValue_name json.name]

/-- **The text of an object**, with the type name in front. -/
structure ObjectText (P : MetaParser) (mem : Mem) (type object : Nat) (descriptor : MetaDescriptor)
    (text : List UInt8) (bytes : Nat) : Prop where
  written : ∃ N, ∀ fuel ≥ N,
    writeJsonObject P.reg mem (writeJsonDescriptor P.floats P.reg mem fuel) object type (-1) =
      some (0, text)
  few : bytes ≤ text.length
  typed : ∃ members, text = charByte '\x7b' :: (quoted typeNameKey ++ charByte ':' ::
    (quoted descriptor.name ++ charByte ',' :: members))
  reads : ∀ (fuel : Nat) (rest : List UInt8) {budget used x : Nat} {start heap : BlockHeap},
    text.length ≤ fuel → Roomy P.alloc start budget → Granted P.alloc start heap used →
      used + bytes ≤ budget → heap.OwnsRange x descriptor.size →
        ReadsBack P mem start heap used bytes type object x descriptor.size rest
          (parseJsonObject P fuel heap (text ++ rest) type x)

/-- **An object has a text**, if its fields have. -/
theorem MembersText.objectText {members : List UInt8} {bytes : Nat} (json : JsonObject P.reg descriptor)
    (found : metaGetDescriptor P.reg type = some descriptor) (kind : descriptor.typeClass = .object)
    (fields : MembersText P mem descriptor object [] descriptor.fields members bytes) :
    ObjectText P mem type object descriptor (charByte '\x7b' :: (quoted typeNameKey ++
      charByte ':' :: (quoted descriptor.name ++ charByte ',' ::
        (members ++ [charByte '\x7d'])))) bytes := by
  obtain ⟨N, written⟩ := fields.written
  have few := fields.few
  refine ⟨⟨N, fun fuel enough => ?_⟩, ?_, ⟨_, rfl⟩, ?_⟩
  · exact writeJsonObject_members found (written fuel enough)
  · simp only [List.length_cons, List.length_append]
    omega
  · intro fuel rest budget used x start heap enough roomy granted fits owns
    simp only [List.length_cons, List.length_append, List.length_nil] at enough
    obtain ⟨fuel, rfl⟩ := Nat.exists_eq_add_of_le' (Nat.one_le_of_lt enough)
    have brace : skipWhitespace (charByte '\x7b' :: (quoted typeNameKey ++ charByte ':' ::
        (quoted descriptor.name ++ charByte ',' :: (members ++ charByte '\x7d' :: rest)))) = _ :=
      skipWhitespace_cons (by decide)
    obtain ⟨heap', result, granted, kept, parsed⟩ :=
      fields.reads fuel (quoted typeNameKey ++ charByte ':' ::
        (quoted descriptor.name ++ charByte ',' :: (members ++ charByte '\x7d' :: rest))).length rest
        (by omega) (by simp only [List.length_cons, List.length_append]; omega) roomy granted fits
        (List.Subset.refl _) owns fun field member => absurd member List.not_mem_nil
    refine ⟨heap', ?_, granted, kept, .object found kind parsed⟩
    simp only [List.cons_append, List.append_assoc, List.nil_append]
    rw [parseJsonObject, found]
    simp only [brace, expectChar_cons]
    rw [parseMembers_typeName json]
    exact result

/-- The text of an object as that of a value. -/
theorem ObjectText.value {text : List UInt8} {bytes : Nat}
    (found : metaGetDescriptor P.reg type = some descriptor) (kind : descriptor.typeClass = .object)
    (whole : ObjectText P mem type object descriptor text bytes) :
    ValueText P mem type object descriptor text bytes := by
  have extent : descriptor.extent = descriptor.size := by rw [MetaDescriptor.extent, kind]
  obtain ⟨members, typed⟩ := whole.typed
  obtain ⟨N, written⟩ := whole.written
  refine ⟨⟨N + 1, fun fuel enough => ?_⟩, whole.few, ⟨_, _, typed, by decide, by decide⟩, ?_⟩
  · obtain ⟨fuel, rfl⟩ := Nat.exists_eq_add_of_le' (Nat.one_le_of_lt enough)
    rw [writeJsonDescriptor, found]
    simp only [kind]
    rw [written fuel (by omega), Option.map_some]
  · intro fuel budget used x start heap rest enough roomy granted fits owns _
    rw [extent] at owns ⊢
    have reads := whole.reads fuel rest enough roomy granted fits owns
    have brace : peekChar (charByte '\x7b') (text ++ rest) = true := by
      rw [typed]
      rfl
    rw [parseJsonDescriptor, if_pos brace]
    exact reads

/-! ### Every object -/

variable (mem object) in
/-- **An object has a text**, if the values of its fields have. -/
theorem objectText (types : JsonTypes P.reg) (found : metaGetDescriptor P.reg type = some descriptor)
    (kind : descriptor.typeClass = .object)
    (values : ∀ field ∈ descriptor.fields, ∀ fieldType,
      metaGetDescriptor P.reg field.type = some fieldType → fieldType.Supported →
        ∃ text bytes, ValueText P mem field.type (object + field.offset) fieldType text bytes) :
    ∃ text bytes, ObjectText P mem type object descriptor text bytes := by
  have json := types _ _ found kind
  obtain ⟨members, bytes, fields⟩ := membersText types json [] json.nonempty rfl
    fun field member => by
      obtain ⟨fieldType, foundField, supported, -⟩ := json.types field member
      obtain ⟨text, bytes, value⟩ := values field member fieldType foundField supported
      exact ⟨fieldType, text, bytes, foundField, value⟩
  exact ⟨_, bytes, fields.objectText json found kind⟩

/-- **Every supported value in memory has a text.** -/
theorem valueText (long : 32 ≤ P.longBits) (types : JsonTypes P.reg)
    (holds : HoldsObject P.reg mem PlainContent type object)
    (found : metaGetDescriptor P.reg type = some descriptor) (supported : descriptor.Supported) :
    ∃ text bytes, ValueText P mem type object descriptor text bytes := by
  induction holds generalizing descriptor with
  | primitive found' kind =>
    obtain rfl := Option.some.inj (found.symm.trans found')
    rw [MetaDescriptor.Supported, kind] at supported
    exact ⟨_, _, primitiveText_value long found kind supported⟩
  | string found' kind nonnull is fine =>
    obtain rfl := Option.some.inj (found.symm.trans found')
    rw [MetaDescriptor.Supported, kind] at supported
    exact ⟨_, _, stringText_value found kind supported nonnull is fine⟩
  | object found' kind _ ih =>
    obtain rfl := Option.some.inj (found.symm.trans found')
    obtain ⟨text, bytes, whole⟩ := objectText mem _ types found kind
      fun field member _ foundField supported => ih field member foundField supported
    exact ⟨text, bytes, whole.value found kind⟩

/-- **The type of a text is its type name.** -/
theorem jsonGetObjectType_typed {expected : Nat} (members : List UInt8)
    (name : IdentifierLike descriptor.name)
    (id : metaGetId P.reg descriptor.name = type) (nonzero : type ≠ 0)
    (expects : expected = 0 ∨ expected = type) :
    jsonGetObjectType P expected (charByte '\x7b' :: (quoted typeNameKey ++ charByte ':' ::
      (quoted descriptor.name ++ charByte ',' :: members))) = some (.ok type) := by
  have noBrace : ∀ content behind, expectChar (charByte '\x7d') (quoted content ++ behind) = none := by
    intro content behind
    rw [quoted_append]
    exact expectChar_ne (by decide)
  have nonempty : ∀ content behind, (quoted content ++ behind).isEmpty = false := fun _ _ => rfl
  have brace : skipWhitespace (charByte '\x7b' :: (quoted typeNameKey ++ charByte ':' ::
      (quoted descriptor.name ++ charByte ',' :: members))) = _ := skipWhitespace_cons (by decide)
  have colon : skipWhitespace (charByte ':' :: (quoted descriptor.name ++ charByte ',' :: members)) =
      _ := skipWhitespace_cons (by decide)
  have mismatch : ¬ (expected ≠ 0 ∧ type ≠ expected) := fun both =>
    expects.elim both.1 fun same => both.2 same.symm
  rw [jsonGetObjectType, brace, expectChar_cons]
  show objectTypeLoop P expected (_ + 1) _ = _
  rw [objectTypeLoop, skipWhitespace_quoted, noBrace, nonempty,
    parseKey_quoted typeNameKey_plain typeNameKey_nonzero]
  simp only [colon, expectChar_cons, Bool.false_eq_true, if_false, if_true, skipWhitespace_quoted,
    parseKey_quoted name.plain name.nonzero, namedType, id, if_neg nonzero, if_neg mismatch]

/-- **A registered type is found by its name**, and its id is not 0. -/
theorem registered_type {props : IntrusiveArrayProps} {descriptors : List MetaDescriptor}
    (registry : P.reg = (metaRegisterAll (metaEmpty props) descriptors).1)
    (names : (descriptors.map (·.name)).Nodup) (few : descriptors.length + 1 < 2 ^ 64)
    (found : metaGetDescriptor P.reg type = some descriptor) :
    type ≠ 0 ∧ metaGetId P.reg descriptor.name = type := by
  have lists := metaRegisterAll_lists descriptors (metaEmpty_lists props)
  rw [← registry, List.nil_append] at lists
  obtain ⟨member, id⟩ := metaGetDescriptor_some lists found
  constructor
  · rw [← id]
    exact metaRegisterAll_ids Nat.one_pos (by rw [Nat.add_comm]; exact few) descriptor member
  · rw [← id]
    exact metaGetId_of_mem lists (by rw [metaRegisterAll_names]; exact names) member

/-- **The text of an object is parsed** to a new object. -/
theorem ObjectText.parsed {text : List UInt8} {bytes expected : Nat} {heap : BlockHeap}
    (whole : ObjectText P mem type object descriptor text bytes) (json : JsonObject P.reg descriptor)
    (found : metaGetDescriptor P.reg type = some descriptor) (nonzero : type ≠ 0)
    (name : metaGetId P.reg descriptor.name = type) (expects : expected = 0 ∨ expected = type)
    (roomy : Roomy P.alloc heap (descriptor.size + text.length)) :
    ∃ base heap' object' used, heap.live ⊆ base.live ∧ Granted P.alloc heap heap' used ∧
      ParsedObject P.reg mem base heap' type object object' ∧
        metaParseJson P expected heap text = some ⟨heap', 0, some object', some type⟩ := by
  have few := whole.few
  obtain ⟨members, typed⟩ := whole.typed
  obtain ⟨⟨base, object'⟩, alloc⟩ :=
    Option.isSome_iff_exists.mp (roomy heap 0 descriptor.size .start (by omega))
  have granted := (Granted.start.alloc alloc).write
    (base.mem.store object' (List.replicate descriptor.size 0))
  obtain ⟨heap', result, granted, -, parsed⟩ := whole.reads (text.length + 1) []
    (Nat.le_succ _) roomy granted (by omega)
    fun x low high => (BlockAlloc.owns alloc x low high).mono (List.Subset.refl _)
  rw [List.append_nil] at result
  refine ⟨_, heap', object', _, ?_, granted, parsed, ?_⟩
  · show heap.live ⊆ base.live
    rw [P.alloc.live alloc]
    exact List.subset_cons_self _ _
  · have named := jsonGetObjectType_typed members json.name name nonzero expects
    rw [← typed] at named
    simp only [metaParseJson, named, Option.bind_some, found, alloc, result, Option.map_some, resultCode]

/-- The minified text does not depend on the fuel. -/
theorem metaWriteJson_unique {N fuel : Nat} {text text' : List UInt8}
    (wrote : ∀ fuel ≥ N, metaWriteJson P.floats fuel P.reg mem object type (-1) = some (0, text))
    (writes : metaWriteJson P.floats fuel P.reg mem object type (-1) = some (0, text')) : text =
      text' := by
  have more := metaWriteJson_mono (Nat.le_max_left fuel N) writes
  rw [wrote _ (Nat.le_max_right fuel N)] at more
  exact congrArg Prod.snd (Option.some.inj more)

/-- **The round trip.** An object has a minified text, and that is parsed to an object of the same type
that is equal field by field. -/
theorem metaParseJson_metaWriteJson (props : IntrusiveArrayProps) (descriptors : List MetaDescriptor)
    (registry : P.reg = (metaRegisterAll (metaEmpty props) descriptors).1)
    (names : (descriptors.map (·.name)).Nodup) (few : descriptors.length + 1 < 2 ^ 64)
    (long : 32 ≤ P.longBits) (types : JsonTypes P.reg)
    (found : metaGetDescriptor P.reg type = some descriptor) (kind : descriptor.typeClass = .object)
    (holds : HoldsObject P.reg mem PlainContent type object) :
    (∃ N text, ∀ fuel ≥ N, metaWriteJson P.floats fuel P.reg mem object type (-1) = some (0, text)) ∧
      ∀ {fuel text expected heap},
        metaWriteJson P.floats fuel P.reg mem object type (-1) = some (0, text) →
          expected = 0 ∨ expected = type → Roomy P.alloc heap (descriptor.size + text.length) →
            ∃ parsed object', metaParseJson P expected heap text = some parsed ∧ parsed.ret = 0 ∧
              parsed.object = some object' ∧ parsed.type = some type ∧
                SameObject P.reg mem parsed.heap.mem type object object' := by
  obtain ⟨nonzero, name⟩ := registered_type registry names few found
  have values := holds.fields found kind
  obtain ⟨text, bytes, whole⟩ := objectText mem object types found kind
    fun field member _ foundField supported => valueText long types
      (values field member) foundField supported
  obtain ⟨N, written⟩ := whole.written
  have wrote : ∀ fuel ≥ N, metaWriteJson P.floats fuel P.reg mem object type (-1) = some (0, text) := by
    intro fuel enough
    rw [metaWriteJson, written fuel enough, Option.map_some]
  refine ⟨⟨N, text, wrote⟩, fun {fuel text' expected heap} writes expects roomy => ?_⟩
  obtain rfl := metaWriteJson_unique wrote writes
  obtain ⟨base, heap', object', used, -, -, parsed, result⟩ :=
    whole.parsed (types _ _ found kind) found nonzero name expects roomy
  exact ⟨⟨heap', 0, some object', some type⟩, object', result, rfl, rfl, rfl, parsed.same⟩

/-! ### A pair of marks -/

/-- Arrays that are always empty. -/
def IntrusiveArrayProps.empty : IntrusiveArrayProps := ⟨fun _ _ => 0, fun _ _ _ => none⟩

/-- A field that is no array. -/
def MetaField.plain (name : String) (type offset : Nat) : MetaField :=
    ⟨ascii name, type, offset, 0, 0, none⟩

/-- Two marks behind each other. -/
def pairType : MetaDescriptor :=
  ⟨ascii "Pair", .object, 32, 5, .i8, [.plain "second" 4 16, .plain "first" 4 0], .cstring⟩

/-- A mark is a number, a character and a name. -/
def markTypes : List MetaDescriptor :=
  [defaultPrimitive "int32_t" 4 .i32, defaultPrimitive "char" 1 .char8,
   ⟨ascii "CString", .string, 8, 0, .i8, [], .cstring⟩,
   ⟨ascii "Mark", .object, 16, 0, .i8,
     [.plain "number" 1 0, .plain "sign" 2 4, .plain "name" 3 8], .cstring⟩, pairType]

/-- The registry of the marks. -/
def markRegistry : MetaRegistry := (metaRegisterAll (metaEmpty .empty) markTypes).1

def markFloats : CFloat := ⟨fun _ => [], fun _ => [], fun s => (0, s), fun s => (0, s)⟩

def markParser : MetaParser := ⟨64, markFloats, markRegistry, .bump, []⟩

/-- A mark in memory. -/
def storeMark (m : Mem) (p : Nat) (number : Int) (sign : UInt8) (name : Nat) : Mem :=
  ((m.writeInt p 4 number).store (p + 4) [sign]).writeNat (p + 8) 8 name

/-- A pair at 4096. Its marks share the string at 5000; the second has the empty end of it. -/
def markMemory : Mem :=
  let zero : Mem := fun _ => 0
  storeMark (storeMark (zero.store 5000 (ascii "a,b")) 4096 (-2147483648) (charByte '"') 5000) 4112 7 0
    5003

theorem markRegistry_lists : markRegistry.Lists (metaRegisterAll (metaEmpty .empty) markTypes).2 :=
  metaRegisterAll_lists markTypes (metaEmpty_lists .empty)

/-- The types by their ids. -/
theorem markRegistry_found {id : Nat} {descriptor : MetaDescriptor}
    (registered : (metaRegisterAll (metaEmpty .empty) markTypes).2[id - 1]? = some descriptor)
    (same : descriptor.id = id) : metaGetDescriptor markRegistry id = some descriptor := by
  rw [← same]
  exact metaGetDescriptor_of_mem markRegistry_lists (by decide +kernel)
    (List.mem_of_getElem? registered)

theorem markRegistry_extent {id : Nat} {descriptor : MetaDescriptor}
    (found : metaGetDescriptor markRegistry id = some descriptor) :
    descriptor.extent = [0, 4, 1, 8, 16, 32].getD id 0 := by
  obtain ⟨member, rfl⟩ := metaGetDescriptor_some markRegistry_lists found
  change descriptor ∈ [_, _, _, _, _] at member
  simp only [List.mem_cons, List.not_mem_nil, or_false] at member
  rcases member with rfl | rfl | rfl | rfl | rfl <;> rfl

theorem markRegistry_types : JsonTypes markRegistry := by
  intro id descriptor found kind
  obtain ⟨member, -⟩ := metaGetDescriptor_some markRegistry_lists found
  change descriptor ∈ [_, _, _, _, _] at member
  simp only [List.mem_cons, List.not_mem_nil, or_false] at member
  have apart : ∀ {fields : List MetaField}, (fields.Pairwise fun first second =>
      first.offset + [0, 4, 1, 8, 16, 32].getD first.type 0 ≤ second.offset ∨
        second.offset + [0, 4, 1, 8, 16, 32].getD second.type 0 ≤ first.offset) →
      fields.Pairwise fun first second => ∀ type type',
        metaGetDescriptor markRegistry first.type = some type →
          metaGetDescriptor markRegistry second.type = some type' →
            first.offset + type.extent ≤ second.offset ∨ second.offset + type'.extent ≤ first.offset :=
              by
    intro fields pairs
    refine pairs.imp fun apart type type' found found' => ?_
    rw [markRegistry_extent found, markRegistry_extent found']
    exact apart
  rcases member with rfl | rfl | rfl | rfl | rfl
  · exact absurd kind (by decide)
  · exact absurd kind (by decide)
  · exact absurd kind (by decide)
  · refine ⟨by decide +kernel, by decide +kernel, by decide +kernel, by decide +kernel,
      by decide +kernel, ?_, apart (by decide +kernel)⟩
    intro field member
    change field ∈ [_, _, _] at member
    simp only [List.mem_cons, List.not_mem_nil, or_false] at member
    rcases member with rfl | rfl | rfl
    · exact ⟨_, markRegistry_found rfl rfl, rfl, by decide⟩
    · exact ⟨_, markRegistry_found rfl rfl, rfl, by decide⟩
    · exact ⟨_, markRegistry_found rfl rfl, rfl, by decide⟩
  · refine ⟨by decide +kernel, by decide +kernel, by decide +kernel, by decide +kernel,
      by decide +kernel, ?_, apart (by decide +kernel)⟩
    intro field member
    change field ∈ [_, _] at member
    simp only [List.mem_cons, List.not_mem_nil, or_false] at member
    rcases member with rfl | rfl
    · exact ⟨_, markRegistry_found rfl rfl, trivial, by decide⟩
    · exact ⟨_, markRegistry_found rfl rfl, trivial, by decide⟩

/-- The text of the pair. -/
def markText : List UInt8 :=
  ascii "\x7b\"--vd-meta-type-name--\":\"Pair\",\"second\":" ++
    (ascii "\x7b\"--vd-meta-type-name--\":\"Mark\",\"number\":7,\"sign\":\"" ++ [0] ++
      ascii "\",\"name\":\"\"\x7d,\"first\":") ++
    ascii "\x7b\"--vd-meta-type-name--\":\"Mark\",\"number\":-2147483648,\"sign\":\"\"\",\"name\":\"a,b\"\x7d\x7d"

theorem markMemory_holds : HoldsObject markRegistry markMemory PlainContent 5 4096 := by
  have mark : ∀ {p : Nat} {content : List UInt8}, markMemory.readNat (p + 8) 8 ≠ 0 →
      IsCString markMemory (markMemory.readNat (p + 8) 8) content → PlainContent content →
        HoldsObject markRegistry markMemory PlainContent 4 p := by
    intro p content nonnull is plain
    refine .object (markRegistry_found rfl rfl) rfl fun field member => ?_
    change field ∈ [_, _, _] at member
    simp only [List.mem_cons, List.not_mem_nil, or_false] at member
    rcases member with rfl | rfl | rfl
    · exact .primitive (markRegistry_found rfl rfl) rfl
    · exact .primitive (markRegistry_found rfl rfl) rfl
    · exact .string (markRegistry_found rfl rfl) rfl nonnull is plain
  have plain : PlainContent (ascii "a,b") := by
    unfold PlainContent
    decide +kernel
  have empty : IsCString markMemory (markMemory.readNat (4112 + 8) 8) [] := by decide +kernel
  refine .object (markRegistry_found rfl rfl) rfl fun field member => ?_
  change field ∈ [_, _] at member
  simp only [List.mem_cons, List.not_mem_nil, or_false] at member
  rcases member with rfl | rfl
  · exact mark (by decide +kernel) empty fun c member => absurd member List.not_mem_nil
  · exact mark (by decide +kernel) (by decide +kernel) plain

/-- The pair is written as its text. -/
theorem markMemory_written :
    metaWriteJson markFloats 2 markRegistry markMemory 4096 5 (-1) = some (0, markText) := by
  decide +kernel

/-- An empty heap has room for the pair. -/
theorem markText_roomy :
    Roomy markParser.alloc ⟨fun _ => 0, []⟩ (pairType.size + markText.length) :=
  BlockAlloc.bump_roomy (by decide +kernel)

theorem metaParseJson_metaWriteJson_pair : ∃ parsed object',
    metaWriteJson markFloats 2 markRegistry markMemory 4096 5 (-1) = some (0, markText) ∧
      metaParseJson markParser 0 ⟨fun _ => 0, []⟩ markText = some parsed ∧ parsed.ret = 0 ∧
        parsed.object = some object' ∧ parsed.type = some 5 ∧
          SameObject markRegistry markMemory parsed.heap.mem 5 4096 object' := by
  have found : metaGetDescriptor markParser.reg 5 = some pairType := markRegistry_found rfl rfl
  obtain ⟨parsed, object', result⟩ :=
    (metaParseJson_metaWriteJson .empty markTypes rfl (by decide +kernel) (by decide +kernel)
      (by decide +kernel) markRegistry_types found rfl markMemory_holds).2 markMemory_written
      (Or.inl rfl) markText_roomy
  exact ⟨parsed, object', markMemory_written, result⟩

end RoundTrip

end Vaudou
