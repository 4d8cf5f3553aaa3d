/-
**Where the strings of a parsed object come from.**

Whatever text is parsed, every pointer of a `CString` field of the object is null as the object was
zeroed, or points to a block of its own with the content of a literal that stands somewhere in the text
(`LiteralOf`). `StringsFrom` says that of an object; one value keeps it for its own part of the object
and leaves the rest alone (`parseJsonDescriptor_strings`), and from there it goes through the loop over
the members and the recursion of the objects.

* `parseJsonObject_strings` — it holds of every object that is parsed.
-/

import Mathlib.Data.List.Pairwise
import Vaudou.Meta.RoundTrip
import Vaudou.Meta.Soundness

namespace Vaudou

open Vaudou.Memory Vaudou.Text

/-- A member or an object ends here, behind white space. -/
def Delimited (s : List UInt8) : Prop :=
  ∃ rest, skipWhitespace s = charByte ',' :: rest ∨ skipWhitespace s = charByte '\x7d' :: rest

/-- **The content of a literal of the text**, behind which a member or an object ends. -/
def LiteralOf (text content : List UInt8) : Prop :=
  ∃ s whole rest, s <:+ text ∧ parseStringBody false s = some (whole, rest) ∧ Delimited rest ∧
    content = whole.takeWhile (· != 0)

/-- Only object types have fields. -/
def MetaRegistry.FieldsOfObjects (reg : MetaRegistry) : Prop :=
  ∀ type descriptor, metaGetDescriptor reg type = some descriptor → descriptor.typeClass ≠ .object →
    descriptor.fields = []

/-- **Every string of the object is null or from somewhere**, in a block that `base` had not handed
out. -/
inductive StringsFrom (reg : MetaRegistry) (origin : List UInt8 → Prop) (base heap : BlockHeap) :
    (type object : Nat) → Prop where
  | primitive {type object descriptor} (found : metaGetDescriptor reg type = some descriptor)
      (kind : descriptor.typeClass = .primitive) : StringsFrom reg origin base heap type object
  | null {type object descriptor} (found : metaGetDescriptor reg type = some descriptor)
      (kind : descriptor.typeClass = .string) (null : heap.mem.readNat object 8 = 0) :
      StringsFrom reg origin base heap type object
  | string {type object descriptor} {content : List UInt8}
      (found : metaGetDescriptor reg type = some descriptor) (kind : descriptor.typeClass = .string)
      (source : origin content) (is : IsCString heap.mem (heap.mem.readNat object 8) content)
      (owns : heap.OwnsRange (heap.mem.readNat object 8) (content.length + 1))
      (new : ∀ x, heap.mem.readNat object 8 ≤ x →
        x < heap.mem.readNat object 8 + (content.length + 1) → ¬ base.Owns x) :
      StringsFrom reg origin base heap type object
  | object {type object descriptor} (found : metaGetDescriptor reg type = some descriptor)
      (kind : descriptor.typeClass = .object)
      (fields : ∀ field ∈ descriptor.fields,
        StringsFrom reg origin base heap field.type (object + field.offset)) :
      StringsFrom reg origin base heap type object

section Objects

variable {reg : MetaRegistry} {mem : Mem} {origin ok : List UInt8 → Prop} {base heap heap' : BlockHeap}
  {type object : Nat} {descriptor : MetaDescriptor}

theorem StringsFrom.fields (strings : StringsFrom reg origin base heap type object)
    (found : metaGetDescriptor reg type = some descriptor) (kind : descriptor.typeClass = .object) :
    ∀ field ∈ descriptor.fields, StringsFrom reg origin base heap field.type (object + field.offset) :=
      by
  cases strings with
  | primitive found' kind' | null found' kind' _ | string found' kind' _ _ _ _ =>
    obtain rfl := Option.some.inj (found.symm.trans found')
    exact absurd (kind.symm.trans kind') (by decide)
  | object found' _ fields =>
    obtain rfl := Option.some.inj (found.symm.trans found')
    exact fields

/-- A string that is not null is from somewhere. -/
theorem StringsFrom.pointer (strings : StringsFrom reg origin base heap type object)
    (found : metaGetDescriptor reg type = some descriptor) (kind : descriptor.typeClass = .string)
    (nonnull : heap.mem.readNat object 8 ≠ 0) :
    ∃ content, origin content ∧ IsCString heap.mem (heap.mem.readNat object 8) content := by
  cases strings with
  | primitive found' kind' | object found' kind' _ =>
    obtain rfl := Option.some.inj (found.symm.trans found')
    exact absurd (kind.symm.trans kind') (by decide)
  | null _ _ null => exact absurd null nonnull
  | string _ _ source is _ _ => exact ⟨_, source, is⟩

/-- **The strings of a zeroed object** are null. -/
theorem HoldsObject.zeroed (json : JsonTypes reg) {object' : Nat}
    (holds : HoldsObject reg mem ok type object)
    (found : metaGetDescriptor reg type = some descriptor)
    (zero : ∀ x, object' ≤ x → x < object' + descriptor.extent → heap.mem x = 0) :
    StringsFrom reg origin base heap type object' := by
  induction holds generalizing descriptor object' with
  | primitive found' kind => exact .primitive found' kind
  | string found' kind _ _ _ =>
    obtain rfl := Option.some.inj (found.symm.trans found')
    have extent : descriptor.extent = 8 := by rw [MetaDescriptor.extent, kind]
    rw [extent] at zero
    exact .null found kind (readNat_zeroed zero)
  | object found' kind _ ih =>
    obtain rfl := Option.some.inj (found.symm.trans found')
    have extent : descriptor.extent = descriptor.size := by rw [MetaDescriptor.extent, kind]
    rw [extent] at zero
    refine .object found kind fun field member => ?_
    obtain ⟨fieldType, foundField, -, inside⟩ := (json _ _ found kind).types field member
    exact ih field member foundField fun x low high => zero x (by omega) (by omega)

/-- **The strings stay** as the parser works on another region of the base heap. -/
theorem StringsFrom.kept (json : JsonTypes reg) {a n : Nat}
    (strings : StringsFrom reg origin base heap type object)
    (found : metaGetDescriptor reg type = some descriptor)
    (kept : heap.Kept heap' a n) (region : base.OwnsRange a n)
    (owns : heap.OwnsRange object descriptor.extent)
    (apart : object + descriptor.extent ≤ a ∨ a + n ≤ object) :
    StringsFrom reg origin base heap' type object := by
  induction strings generalizing descriptor with
  | primitive found' kind => exact .primitive found' kind
  | null found' kind null =>
    obtain rfl := Option.some.inj (found.symm.trans found')
    have extent : descriptor.extent = 8 := by rw [MetaDescriptor.extent, kind]
    rw [extent] at owns apart
    exact .null found kind ((readNat_congr (kept.region owns apart)).trans null)
  | string found' kind source is ownsString new =>
    obtain rfl := Option.some.inj (found.symm.trans found')
    have extent : descriptor.extent = 8 := by rw [MetaDescriptor.extent, kind]
    rw [extent] at owns apart
    have pointer := readNat_congr (kept.region owns apart)
    obtain ⟨still, owned⟩ := is.kept ownsString new kept region
    refine .string found kind source ?_ ?_ ?_ <;> rw [pointer]
    · exact still
    · exact owned
    · exact new
  | object found' kind _ ih =>
    obtain rfl := Option.some.inj (found.symm.trans found')
    have extent : descriptor.extent = descriptor.size := by rw [MetaDescriptor.extent, kind]
    rw [extent] at owns apart
    refine .object found kind fun field member => ?_
    obtain ⟨fieldType, foundField, -, inside⟩ := (json _ _ found kind).types field member
    exact ih field member foundField (fun x low high => owns x (by omega) (by omega)) (by omega)

/-- **Different fields of an object are apart.** -/
theorem JsonObject.fields_apart (json : JsonObject reg descriptor) {field other : MetaField}
    {fieldType otherType : MetaDescriptor} (member : field ∈ descriptor.fields)
    (among : other ∈ descriptor.fields) (different : other ≠ field)
    (found : metaGetDescriptor reg field.type = some fieldType)
    (foundOther : metaGetDescriptor reg other.type = some otherType) :
    other.offset + otherType.extent ≤ field.offset ∨ field.offset + fieldType.extent ≤ other.offset := by
  have symmetric : Std.Symm fun first second : MetaField => ∀ type type',
      metaGetDescriptor reg first.type = some type → metaGetDescriptor reg second.type = some type' →
        first.offset + type.extent ≤ second.offset ∨ second.offset + type'.extent ≤ first.offset :=
    ⟨fun _ _ apart type type' found found' => (apart type' type found' found).symm⟩
  exact json.apart.forall among member different _ _ foundOther found

end Objects

/-! ### Values -/

section Values

variable {P : MetaParser} {text s rest : List UInt8} {base heap heap' : BlockHeap} {type object : Nat}
  {descriptor : MetaDescriptor}

/-- A primitive value is written to its own bytes. -/
theorem parsePrimitive_within (m : Mem) (x : Nat) (kind : MetaPrimitiveType) :
    ChangedWithin m (parsePrimitive P m s x kind).1 x kind.width := by
  cases kind with
  | i8 | i16 | i32 | i64 => exact writeInt_changedWithin _ _ _ _
  | u8 | u16 | u32 | u64 | f32 | f64 => exact writeNat_changedWithin _ _ _ _
  | char8 =>
    unfold parsePrimitive
    cases expectChar (charByte '"') s with
    | none => exact .refl _ _ _
    | some inner =>
      cases closed : expectChar (charByte '"') (readChar inner).2 with
      | none =>
        simp only [closed]
        exact store_changedWithin _ _ _
      | some rest =>
        simp only [closed]
        exact store_changedWithin _ _ _

/-- The rest behind an integer or a character is an end of the text. -/
theorem parsePrimitive_rest {m : Mem} {x : Nat} {kind : MetaPrimitiveType}
    (integer : kind.isFloat = false) :
    (parsePrimitive P m s x kind).2 <:+ s := by
  have plain : parsePrimitive P m s x kind = parsePrimitive
    { P with floats := markFloats } m s x kind := by
    cases kind with
    | f32 | f64 => cases integer
    | _ => rfl
  have floats : (MetaParser.floats { P with floats := markFloats }).ReadsTokens := markFloats_readsTokens
  rw [plain]
  exact parsePrimitive_suffix floats kind

/-- **What a value does**: the rest is an end of the text, the strings of the value are from the text,
and everything else that was handed out is as before. -/
structure StringsParsed (P : MetaParser) (text : List UInt8) (base heap heap' : BlockHeap)
    (type object extent : Nat) (rest : List UInt8) : Prop where
  suffix : rest <:+ text
  kept : heap.Kept heap' object extent
  strings : StringsFrom P.reg (LiteralOf text) base heap' type object

/-- The objects that are parsed. -/
def ObjectsParsed (P : MetaParser) (text : List UInt8) (base : BlockHeap)
    (parseObject : ParseProc) : Prop :=
  ∀ {heap heap' : BlockHeap} {s rest : List UInt8} {type object : Nat} {descriptor : MetaDescriptor},
    (parseObject heap s type object).accepted = some (heap', rest) → s <:+ text →
      metaGetDescriptor P.reg type = some descriptor → base.live ⊆ heap.live →
        base.OwnsRange object descriptor.extent →
          StringsFrom P.reg (LiteralOf text) base heap type object →
            StringsParsed P text base heap heap' type object descriptor.extent rest

/-- **A string that is parsed** is from a literal of the text. -/
theorem parseCString_strings (found : metaGetDescriptor P.reg type = some descriptor)
    (kind : descriptor.typeClass = .string) (suffix : s <:+ text) (live : base.live ⊆ heap.live)
    (owns : base.OwnsRange object 8) (strings : StringsFrom P.reg (LiteralOf text) base heap type object)
    (delimited : Delimited rest) (parsed : parseCString P heap s object = some (heap', .ok rest)) :
    StringsParsed P text base heap heap' type object 8 rest := by
  unfold parseCString at parsed
  cases string : parseJsonString s with
  | none =>
    rw [string] at parsed
    obtain ⟨rfl, outcome⟩ := Prod.mk.inj (Option.some.inj parsed)
    obtain rfl := Except.ok.inj outcome
    exact ⟨suffix, .refl _ _ _, strings⟩
  | some result =>
    obtain ⟨key, behind⟩ := result
    rw [string] at parsed
    obtain ⟨⟨granted, p⟩, alloc, outcome⟩ := Option.map_eq_some_iff.mp parsed
    obtain ⟨rfl, ok⟩ := Prod.mk.inj outcome
    obtain rfl := Except.ok.inj ok
    obtain ⟨inner, opened, bodies⟩ := Option.bind_eq_some_iff.mp string
    obtain ⟨⟨whole, r⟩, body, same⟩ := Option.map_eq_some_iff.mp bodies
    obtain ⟨rfl, rfl⟩ := Prod.mk.inj same
    have nonzero : 0 ∉ whole.takeWhile (· != 0) := fun member => by
      have visible := List.mem_takeWhile_imp member
      exact absurd visible (by decide)
    have stored := newString_alloc alloc (owns.mono live) nonzero
    have inside : inner <:+ s := by
      rw [expectChar_some opened]
      exact List.suffix_cons _ _
    refine ⟨(parseJsonString_suffix string).trans suffix, stored.kept, ?_⟩
    exact .string found kind ⟨inner, whole, r, inside.trans suffix, body, delimited,
      rfl⟩ stored.is stored.owns
      fun x low high old => stored.new x low high (old.mono live)

/-- **A value that is parsed.** -/
theorem parseJsonDescriptor_strings {parseObject : ParseProc}
    (objects : ObjectsParsed P text base parseObject)
    (found : metaGetDescriptor P.reg type = some descriptor) (supported : descriptor.Supported)
    (suffix : s <:+ text) (live : base.live ⊆ heap.live) (owns : base.OwnsRange object descriptor.extent)
    (strings : StringsFrom P.reg (LiteralOf text) base heap type object) (delimited : Delimited rest)
    (parsed : (parseJsonDescriptor P parseObject type (some descriptor) heap s object).accepted =
      some (heap', rest)) : StringsParsed P text base heap heap' type object descriptor.extent rest := by
  unfold parseJsonDescriptor at parsed
  split at parsed
  · exact objects parsed suffix found live owns strings
  · rw [Option.bind_some] at parsed
    have unchanged : ParseResult.accepted (some (heap, .ok s)) = some (heap', rest) →
        StringsParsed P text base heap heap' type object descriptor.extent rest := by
      intro parsed
      obtain ⟨rfl, rfl⟩ := Prod.mk.inj (Option.some.inj parsed)
      exact ⟨suffix, .refl _ _ _, strings⟩
    cases kind : descriptor.typeClass with
    | primitive =>
      rw [kind] at parsed
      rw [MetaDescriptor.Supported, kind] at supported
      obtain ⟨rfl, rfl⟩ := Prod.mk.inj (Option.some.inj parsed)
      have extent : descriptor.extent = descriptor.primitive.width := by
        rw [MetaDescriptor.extent, kind]
      rw [extent]
      exact ⟨(parsePrimitive_rest supported).trans suffix, .write (parsePrimitive_within _ _ _),
        .primitive found kind⟩
    | string =>
      rw [kind] at parsed
      have extent : descriptor.extent = 8 := by rw [MetaDescriptor.extent, kind]
      cases cstring : descriptor.string with
      | cstring =>
        rw [cstring] at parsed
        rw [extent] at owns ⊢
        exact parseCString_strings found kind suffix live owns strings delimited
          (accepted_eq_some.mp parsed)
      | slice =>
        rw [cstring] at parsed
        exact unchanged parsed
    | array | object =>
      rw [kind] at parsed
      exact unchanged parsed

/-! ### Objects -/

/-- **The value of a field that is parsed**, with the other fields of the object as they were. -/
theorem parseJsonField_strings {parseObject : ParseProc} {field : MetaField}
    (objects : ObjectsParsed P text base parseObject) (types : JsonTypes P.reg)
    (json : JsonObject P.reg descriptor) (member : field ∈ descriptor.fields) (suffix : s <:+ text)
    (live : base.live ⊆ heap.live) (owns : base.OwnsRange object descriptor.size)
    (strings : ∀ field ∈ descriptor.fields,
      StringsFrom P.reg (LiteralOf text) base heap field.type (object + field.offset))
    (delimited : Delimited rest)
    (parsed : (parseJsonField P parseObject field heap s (object + field.offset)).accepted =
      some (heap', rest)) :
    rest <:+ text ∧ heap.Kept heap' object descriptor.size ∧ ∀ field ∈ descriptor.fields,
      StringsFrom P.reg (LiteralOf text) base heap' field.type (object + field.offset) := by
  obtain ⟨fieldType, found, supported, inside⟩ := json.types field member
  have region : base.OwnsRange (object + field.offset) fieldType.extent :=
    owns.part (Nat.le_add_right _ _) (by omega)
  have visible : skipWhitespace s <:+ text := (List.dropWhile_suffix _).trans suffix
  rw [parseJsonField] at parsed
  simp only [found] at parsed
  split at parsed
  · -- an array is no value of a field without flags
    rw [if_pos (json.plain field member)] at parsed
    cases parsed
  · obtain ⟨rest_suffix, kept, new⟩ := parseJsonDescriptor_strings objects found supported visible live
      region (strings field member) delimited parsed
    refine ⟨rest_suffix, kept.widen (Nat.le_add_right _ _) (by omega), fun other among => ?_⟩
    by_cases same : other = field
    · rw [same]
      exact new
    · obtain ⟨otherType, foundOther, -, insideOther⟩ := json.types other among
      have apart := json.fields_apart member among same found foundOther
      have ownsOther : heap.OwnsRange (object + other.offset) otherType.extent :=
        (owns.part (Nat.le_add_right _ _) (by omega)).mono live
      exact (strings other among).kept types foundOther kept region ownsOther (by omega)

/-- Without fields no member is the last one. -/
theorem parseMembers_fieldless {parseObject : ParseProc} (fieldless : descriptor.fields = []) :
    ∀ {fuel : Nat} {heap : BlockHeap} {s : List UInt8} {result : BlockHeap × List UInt8},
      (parseMembers P parseObject descriptor object fuel heap s).accepted ≠ some result := by
  intro fuel
  induction fuel with
  | zero => exact fun parsed => nomatch parsed
  | succ fuel ih =>
    intro heap s result parsed
    obtain ⟨-, -, ⟨-, later, -, parsed⟩ | ⟨field, -, -, found, -⟩⟩ := parseMembers_cases parsed
    · exact ih parsed
    · rw [findField, fieldless] at found
      cases found

/-- **The members that are parsed.** -/
theorem parseMembers_strings {parseObject : ParseProc} (objects : ObjectsParsed P text base parseObject)
    (types : JsonTypes P.reg) (json : JsonObject P.reg descriptor)
    (owns : base.OwnsRange object descriptor.size) : ∀ {fuel : Nat} {heap heap' : BlockHeap}
    {s rest : List UInt8}, s <:+ text → base.live ⊆ heap.live →
      (∀ field ∈ descriptor.fields,
        StringsFrom P.reg (LiteralOf text) base heap field.type (object + field.offset)) →
        (parseMembers P parseObject descriptor object fuel heap s).accepted = some (heap', rest) →
          rest <:+ text ∧ heap.Kept heap' object descriptor.size ∧ ∀ field ∈ descriptor.fields,
            StringsFrom P.reg (LiteralOf text) base heap' field.type (object + field.offset) := by
  intro fuel
  induction fuel with
  | zero => exact fun _ _ _ parsed => nomatch parsed
  | succ fuel ih =>
    intro heap heap' s rest suffix live strings parsed
    obtain ⟨behind, colon, member⟩ := parseMembers_cases parsed
    obtain ⟨key, split, -⟩ := parseKey_syntax colon
    have behind_suffix : skipWhitespace behind <:+ text := List.IsSuffix.trans ⟨key, split.symm⟩ suffix
    rcases member with ⟨-, later, skipped, parsed⟩ | ⟨field, inner, between, found, fieldValue, after⟩
    · obtain ⟨value, value_split, -⟩ := jsonSkipLoop_syntax skipped
      have remains : later <:+ skipWhitespace behind := by
        rw [value_split]
        exact (List.suffix_cons _ _).trans (List.suffix_append _ _)
      exact ih (remains.trans behind_suffix) live strings parsed
    · have delimited : Delimited between := by
        rcases after with ⟨closed, -⟩ | ⟨later, comma, -⟩
        · exact ⟨rest, Or.inr closed⟩
        · exact ⟨later, Or.inl comma⟩
      obtain ⟨between_suffix, kept, new⟩ := parseJsonField_strings objects types json
        (List.mem_of_find?_eq_some found) behind_suffix live owns strings delimited fieldValue
      have visible : skipWhitespace between <:+ text := (List.dropWhile_suffix _).trans between_suffix
      rcases after with ⟨closed, rfl⟩ | ⟨later, comma, after⟩
      · rw [closed] at visible
        exact ⟨(List.suffix_cons _ _).trans visible, kept, new⟩
      · rw [comma] at visible
        obtain ⟨rest_suffix, keptLater, newer⟩ := ih ((List.suffix_cons _ _).trans visible)
          (List.Subset.trans live kept.live) new after
        exact ⟨rest_suffix, kept.trans keptLater, newer⟩

/-- **The objects that are parsed.** -/
theorem parseJsonObject_strings (types : JsonTypes P.reg) (bare : P.reg.FieldsOfObjects) : ∀ fuel : Nat,
    ObjectsParsed P text base (parseJsonObject P fuel) := by
  intro fuel
  induction fuel with
  | zero => exact fun parsed => nomatch parsed
  | succ fuel ih =>
    intro heap heap' s rest type object descriptor parsed suffix found live owns strings
    rw [parseJsonObject, found] at parsed
    simp only at parsed
    split at parsed
    · cases parsed
    next inner opened =>
      have visible : skipWhitespace s <:+ text := (List.dropWhile_suffix _).trans suffix
      rw [expectChar_some opened] at visible
      have inside := (List.suffix_cons _ _).trans visible
      by_cases kind : descriptor.typeClass = .object
      · have extent : descriptor.extent = descriptor.size := by rw [MetaDescriptor.extent, kind]
        rw [extent] at owns ⊢
        obtain ⟨rest_suffix, kept, new⟩ := parseMembers_strings ih types
          (types _ _ found kind) owns inside live
          (strings.fields found kind) parsed
        exact ⟨rest_suffix, kept, .object found kind new⟩
      · -- no member of a type without fields is the last one
        exact absurd parsed (parseMembers_fieldless (bare _ _ found kind))

end Values

end Vaudou
