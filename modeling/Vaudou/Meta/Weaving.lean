/-
**Texts with strings of any content.**

The writer pushes a string as it is. `Woven` is the shape of what it writes: bytes that are no backslash,
and behind colons strings in quotes that are `Trapped`: a literal that runs over the closing quote of
such a string ends at the opening quote of the next key, and the parser is stuck there.

* `writtenValue` — every value in memory has a minified text, and it is woven.
* `Woven.literal` — a literal in a woven text that is read to quotes or backslashes is shorter than some
  string of the text.
-/

import Vaudou.Meta.Provenance

namespace Vaudou

open Vaudou.Memory Vaudou.Text

/-! ### Literals -/

section Literals

variable {s rest : List UInt8}

/-- **A literal is longer than what it is read to**, if there are quotes or backslashes in that. -/
theorem parseStringBody_body : ∀ {s : List UInt8} {escaped : Bool} {whole r : List UInt8},
    parseStringBody escaped s = some (whole, r) → ∃ body, s = body ++ charByte '"' :: r ∧
      whole.length ≤ body.length ∧ (escaped = false → PlainContent whole ∨
        (whole.length < body.length ∧ charByte '\\' ∈ body))
  | [], escaped, _, _, parsed => by
    cases escaped <;> cases parsed
  | c :: s, true, _, _, parsed => by
    rw [parseStringBody] at parsed
    obtain ⟨⟨later, r⟩, inner, same⟩ := Option.map_eq_some_iff.mp parsed
    obtain ⟨rfl, rfl⟩ := Prod.mk.inj same
    obtain ⟨body, rfl, short, -⟩ := parseStringBody_body inner
    exact ⟨c :: body, rfl, Nat.succ_le_succ short, Bool.noConfusion⟩
  | c :: s, false, _, _, parsed => by
    rw [parseStringBody] at parsed
    split_ifs at parsed with quote zero backslash
    · obtain ⟨rfl, rfl⟩ := Prod.mk.inj (Option.some.inj parsed)
      exact ⟨[], by rw [quote]; rfl, Nat.le_refl 0, fun _ => Or.inl
        fun d member => absurd member List.not_mem_nil⟩
    · -- the backslash itself is not pushed
      obtain ⟨body, rfl, short, -⟩ := parseStringBody_body parsed
      exact ⟨c :: body, rfl, Nat.le_succ_of_le short,
        fun _ => Or.inr ⟨Nat.lt_succ_of_le short, backslash ▸ List.mem_cons_self⟩⟩
    · obtain ⟨⟨later, r⟩, inner, same⟩ := Option.map_eq_some_iff.mp parsed
      obtain ⟨rfl, rfl⟩ := Prod.mk.inj same
      obtain ⟨body, rfl, short, special⟩ := parseStringBody_body inner
      refine ⟨c :: body, rfl, Nat.succ_le_succ short, fun _ => ?_⟩
      rcases special rfl with plain | ⟨shorter, member⟩
      · refine Or.inl fun d member => ?_
        rcases List.mem_cons.mp member with rfl | member
        · exact ⟨quote, backslash⟩
        · exact plain d member
      · exact Or.inr ⟨Nat.succ_lt_succ shorter, List.mem_cons_of_mem c member⟩

/-- **A literal that starts in front of a quote** ends there at the latest, or goes on behind it. -/
theorem parseStringBody_leaves : ∀ {t : List UInt8} {escaped : Bool} {whole r : List UInt8},
    parseStringBody escaped (t ++ charByte '"' :: rest) = some (whole, r) →
      rest.length ≤ r.length ∨ ∃ later, parseStringBody false rest = some (later, r)
  | [], true, _, _, parsed => by
    rw [List.nil_append, parseStringBody] at parsed
    obtain ⟨⟨later, r⟩, inner, same⟩ := Option.map_eq_some_iff.mp parsed
    obtain ⟨-, rfl⟩ := Prod.mk.inj same
    exact Or.inr ⟨later, inner⟩
  | [], false, _, _, parsed => by
    rw [List.nil_append, parseStringBody, if_pos rfl] at parsed
    obtain ⟨-, rfl⟩ := Prod.mk.inj (Option.some.inj parsed)
    exact Or.inl le_rfl
  | c :: t, true, _, _, parsed => by
    rw [List.cons_append, parseStringBody] at parsed
    obtain ⟨⟨later, r⟩, inner, same⟩ := Option.map_eq_some_iff.mp parsed
    obtain ⟨-, rfl⟩ := Prod.mk.inj same
    exact parseStringBody_leaves inner
  | c :: t, false, _, _, parsed => by
    rw [List.cons_append, parseStringBody] at parsed
    split_ifs at parsed
    · obtain ⟨-, rfl⟩ := Prod.mk.inj (Option.some.inj parsed)
      refine Or.inl ?_
      rw [List.length_append, List.length_cons]
      omega
    · exact parseStringBody_leaves parsed
    · obtain ⟨⟨later, r⟩, inner, same⟩ := Option.map_eq_some_iff.mp parsed
      obtain ⟨-, rfl⟩ := Prod.mk.inj same
      exact parseStringBody_leaves inner

/-- **The parser is stuck behind every literal that starts here.** -/
def Trapped (s : List UInt8) : Prop :=
  ∀ whole r, parseStringBody false s = some (whole, r) → Blocked r

theorem Trapped.nil : Trapped [] := fun _ _ parsed => nomatch parsed

/-- A byte of a literal that is pushed as it is. -/
theorem Trapped.cons {c : UInt8} (trapped : Trapped s)
    (quote : c ≠ charByte '"') (backslash : c ≠ charByte '\\') :
    Trapped (c :: s) := by
  intro whole r parsed
  rw [parseStringBody, if_neg quote] at parsed
  split_ifs at parsed
  obtain ⟨⟨later, r⟩, inner, same⟩ := Option.map_eq_some_iff.mp parsed
  obtain ⟨-, rfl⟩ := Prod.mk.inj same
  exact trapped later r inner

/-- The next key. -/
theorem Trapped.quote (blocked : Blocked s) : Trapped (charByte '"' :: s) := by
  intro whole r parsed
  rw [parseStringBody, if_pos rfl] at parsed
  obtain ⟨-, rfl⟩ := Prod.mk.inj (Option.some.inj parsed)
  exact blocked

/-- The parser is stuck at a name. -/
theorem IdentifierLike.blocked {name : List UInt8} (identifier : IdentifierLike name)
    (rest : List UInt8) :
    Blocked (name ++ rest) := by
  obtain ⟨c, tail, rfl⟩ := List.exists_cons_of_ne_nil identifier.nonempty
  have byte := identifier.bytes c List.mem_cons_self
  obtain ⟨-, -, -, -, close, -, brace, comma, -⟩ := identifier_plain byte
  refine ⟨c, tail ++ rest, rfl, ?_, comma, close, brace⟩
  by_contra blank
  simp only [Bool.not_eq_false, isWhitespace, Bool.or_eq_true, beq_iff_eq] at blank
  rcases blank with ((rfl | rfl) | rfl) | rfl <;> cases byte

theorem Blocked.not_delimited (blocked : Blocked s) : ¬ Delimited s := by
  rintro ⟨rest, ends⟩
  rw [blocked.visible] at ends
  obtain ⟨c, tail, rfl, -, comma, -, brace⟩ := blocked
  rcases ends with ends | ends
  · exact comma (List.cons.inj ends).1
  · exact brace (List.cons.inj ends).1

end Literals

/-! ### Woven texts -/

/-- **A text with strings of `L` in it**: a byte that is no backslash, or a string behind its colon. -/
inductive Woven (L : List UInt8 → Prop) : (text : List UInt8) → Prop where
  | nil : Woven L []
  | byte {c rest} : c ≠ charByte '\\' → Woven L rest → Woven L (c :: rest)
  | string {content rest} : L content → Trapped rest → Woven L rest →
      Woven L (charByte ':' :: (quoted content ++ rest))

section Texts

variable {L : List UInt8 → Prop} {s rest text content bytes whole r : List UInt8}

theorem Woven.plain (plain : ∀ c ∈ bytes, c ≠ charByte '\\') (woven : Woven L rest) : Woven L
    (bytes ++ rest) := by
  induction bytes with
  | nil => exact woven
  | cons c bytes ih =>
    exact .byte (plain c List.mem_cons_self) (ih fun d member => plain d (List.mem_cons_of_mem c member))

/-- A plain string in quotes. -/
theorem Woven.quoted (plain : PlainContent content) (woven : Woven L rest) :
    Woven L (Vaudou.quoted content ++ rest) := by
  refine woven.plain fun c member => ?_
  rcases List.mem_cons.mp member with rfl | member
  · decide
  · rcases List.mem_append.mp member with inside | last
    · exact (plain c inside).2
    · rw [List.mem_singleton.mp last]
      decide

/-- **A literal that starts outside of the strings** stays outside. -/
theorem Woven.outside (woven : Woven L s) : ∀ {whole r : List UInt8},
    parseStringBody false s = some (whole, r) → PlainContent whole := by
  induction woven with
  | nil => exact fun parsed => nomatch parsed
  | byte backslash _ ih =>
    intro whole r parsed
    rw [parseStringBody] at parsed
    split_ifs at parsed with quote zero
    · obtain ⟨rfl, -⟩ := Prod.mk.inj (Option.some.inj parsed)
      exact fun d member => absurd member List.not_mem_nil
    · obtain ⟨⟨later, r⟩, inner, same⟩ := Option.map_eq_some_iff.mp parsed
      obtain ⟨rfl, -⟩ := Prod.mk.inj same
      intro d member
      rcases List.mem_cons.mp member with rfl | member
      · exact ⟨quote, backslash⟩
      · exact ih inner d member
  | string _ _ _ _ =>
    intro whole r parsed
    rw [quoted_append, parseStringBody, if_neg (by decide), if_neg (by decide), if_neg (by decide),
      parseStringBody,
      if_pos rfl] at parsed
    obtain ⟨rfl, -⟩ := Prod.mk.inj (Option.some.inj parsed)
    intro d member
    rw [List.mem_singleton.mp member]
    decide

/-- **The places of a woven text**: outside of the strings, at a quote, and in a string. -/
theorem Woven.suffix (woven : Woven L text) : ∀ {s : List UInt8}, s <:+ text →
    Woven L s ∨ (∃ tail, s = charByte '"' :: tail) ∨ ∃ content t rest, L content ∧ t <:+ content ∧
      s = t ++ charByte '"' :: rest ∧ Trapped rest := by
  induction woven with
  | nil =>
    intro s suffix
    rw [List.suffix_nil.mp suffix]
    exact Or.inl .nil
  | @byte c rest plain woven ih =>
    intro s suffix
    rcases List.suffix_cons_iff.mp suffix with rfl | inner
    · exact Or.inl (.byte plain woven)
    · exact ih inner
  | @string content rest listed trapped woven ih =>
    intro s suffix
    rcases List.suffix_cons_iff.mp suffix with rfl | inner
    · exact Or.inl (.string listed trapped woven)
    rw [quoted_append] at inner
    rcases List.suffix_cons_iff.mp inner with rfl | inner
    · exact Or.inr (Or.inl ⟨_, rfl⟩)
    obtain ⟨front, split⟩ := inner
    rcases List.append_eq_append_iff.mp split with ⟨t, whole, rfl⟩ | ⟨behind, _, later⟩
    · exact Or.inr (Or.inr ⟨content, t, rest, listed, ⟨front, whole.symm⟩, rfl, trapped⟩)
    · rcases List.suffix_cons_iff.mp ⟨behind, later.symm⟩ with rfl | inner
      · exact Or.inr (Or.inl ⟨_, rfl⟩)
      · exact ih inner

/-- **A literal in a woven text** that the parser goes on behind is plain, or shorter than a string with
a backslash. -/
theorem Woven.literal (woven : Woven L text) (suffix : s <:+ text)
    (parsed : parseStringBody false s = some (whole, r)) (delimited : Delimited r) :
    PlainContent whole ∨ ∃ content, L content ∧ charByte '\\' ∈ content ∧
      whole.length < content.length := by
  rcases woven.suffix suffix with outside | ⟨tail, rfl⟩ |
    ⟨content, t, rest, listed, inside, rfl, trapped⟩
  · exact Or.inl (outside.outside parsed)
  · rw [parseStringBody, if_pos rfl] at parsed
    obtain ⟨rfl, -⟩ := Prod.mk.inj (Option.some.inj parsed)
    exact Or.inl fun d member => absurd member List.not_mem_nil
  · obtain ⟨body, split, -, special⟩ := parseStringBody_body parsed
    rcases special rfl with plain | ⟨shorter, backslash⟩
    · exact Or.inl plain
    refine Or.inr ?_
    rcases parseStringBody_leaves parsed with within | ⟨later, beyond⟩
    · -- the literal ends in the string, and so it is a part of the string
      have lengths := congrArg List.length split
      simp only [List.length_append, List.length_cons] at lengths
      have part : body <+: t := List.prefix_of_prefix_length_le ⟨_, split.symm⟩
        (List.prefix_append t _) (by omega)
      exact ⟨content, listed, inside.subset (part.subset backslash),
        shorter.trans_le (part.length_le.trans inside.length_le)⟩
    · exact absurd delimited (trapped later r beyond).not_delimited

end Texts

/-! ### What is written -/

section Written

variable {P : MetaParser} {mem : Mem} {type object : Nat} {descriptor : MetaDescriptor}
  {ok L : List UInt8 → Prop}

/-- **The text of a value**: the writer writes it, and behind its colon it is woven into what is. -/
structure WrittenText (P : MetaParser) (mem : Mem) (L : List UInt8 → Prop) (type object : Nat)
    (text : List UInt8) : Prop where
  written : ∃ N, ∀ fuel ≥ N,
    writeJsonDescriptor P.floats P.reg mem fuel object type (-1) = some (0, text)
  woven : ∀ {rest}, Trapped rest → Woven L rest → Woven L (charByte ':' :: (text ++ rest))

/-- The text of the fields of an object. It starts with a key. -/
structure WrittenMembers (P : MetaParser) (mem : Mem) (L : List UInt8 → Prop) (object : Nat)
    (fields : List MetaField) (text : List UInt8) : Prop where
  written : ∃ N, ∀ fuel ≥ N,
    writeFields P.reg mem (writeJsonDescriptor P.floats P.reg mem fuel) object (-1) fields = some text
  key : ∃ tail, text = charByte '"' :: tail ∧ Blocked tail
  woven : ∀ {rest}, Trapped rest → Woven L rest → Woven L (text ++ charByte '\x7d' :: rest)

/-- The text of an object. -/
structure WrittenObject (P : MetaParser) (mem : Mem) (L : List UInt8 → Prop) (type object : Nat)
    (text : List UInt8) : Prop where
  written : ∃ N, ∀ fuel ≥ N,
    writeJsonObject P.reg mem (writeJsonDescriptor P.floats P.reg mem fuel) object type (-1) =
      some (0, text)
  woven : ∀ {rest}, Trapped rest → Woven L rest → Woven L (text ++ rest)

variable (mem object) in
/-- A primitive value has no backslashes, but for a character. -/
theorem writtenPrimitive (single : ∀ c, L [c]) (found : metaGetDescriptor P.reg type = some descriptor)
    (kind : descriptor.typeClass = .primitive) (integer : descriptor.primitive.isFloat = false) :
    WrittenText P mem L type object (primitiveText P.floats mem object descriptor.primitive) := by
  have digits : ∀ n, ∀ c ∈ decimal n, c ≠ charByte '\\' := by
    rintro n c member rfl
    exact absurd (decimal_digits n _ member) (by decide)
  have unsigned : ∀ n, ∀ c ∈ snprintf32 (decimal n), c ≠ charByte '\\' :=
    fun n c member => digits n c (List.mem_of_mem_take member)
  have signed : ∀ v, ∀ c ∈ snprintf32 (decimalInt v), c ≠ charByte '\\' := by
    intro v c member
    replace member := List.mem_of_mem_take member
    unfold decimalInt at member
    split at member
    · rcases List.mem_cons.mp member with rfl | member
      · decide
      · exact digits _ c member
    · exact digits _ c member
  refine ⟨⟨1, fun fuel enough => ?_⟩, fun trapped woven => ?_⟩
  · obtain ⟨fuel, rfl⟩ := Nat.exists_eq_add_of_le' enough
    rw [writeJsonDescriptor, found]
    simp only [kind]
  · cases shape : descriptor.primitive with
    | i8 | i16 | i32 | i64 => exact .byte (by decide) (woven.plain (signed _))
    | u8 | u16 | u32 | u64 => exact .byte (by decide) (woven.plain (unsigned _))
    | f32 | f64 =>
      rw [shape] at integer
      cases integer
    | char8 => exact .string (single _) trapped woven

/-- A string is pushed as it is. -/
theorem writtenString (found : metaGetDescriptor P.reg type = some descriptor)
    (kind : descriptor.typeClass = .string)
    (cstring : descriptor.string = .cstring) (nonnull : mem.readNat object 8 ≠ 0)
    {content : List UInt8} (is : IsCString mem (mem.readNat object 8) content) (listed : L content) :
    WrittenText P mem L type object (quoted content) := by
  refine ⟨⟨1, fun fuel enough => ?_⟩, fun trapped woven => .string listed trapped woven⟩
  obtain ⟨fuel, rfl⟩ := Nat.exists_eq_add_of_le' enough
  rw [writeJsonDescriptor, found]
  simp only [kind, cstring]
  rw [pushCString, if_neg nonnull, is.strlen, Option.map_some, is.loaded, Option.map_some]

/-- **The fields of an object are written**, if their values are. -/
theorem writtenMembers (json : JsonObject P.reg descriptor) : ∀ {fields : List MetaField}, fields ≠ [] →
    (∀ field ∈ fields, field ∈ descriptor.fields) →
      (∀ field ∈ fields, ∃ text, WrittenText P mem L field.type (object + field.offset) text) →
        ∃ text, WrittenMembers P mem L object fields text
  | [field], _, members, values => by
    have member := members field List.mem_cons_self
    obtain ⟨text, value⟩ := values field List.mem_cons_self
    obtain ⟨N, written⟩ := value.written
    refine ⟨_, ⟨N, fun fuel enough => writeFields_last (json.plain field member)
      (written fuel enough)⟩, ?_, ?_⟩
    · exact ⟨_, quoted_append, (json.names field member).blocked _⟩
    · intro rest trapped woven
      rw [List.append_assoc, List.cons_append]
      exact (value.woven (trapped.cons (by decide) (by decide)) (.byte (by decide) woven)).quoted
        (json.names field member).plain
  | field :: next :: later, _, members, values => by
    have member := members field List.mem_cons_self
    obtain ⟨text, value⟩ := values field List.mem_cons_self
    obtain ⟨laterText, laterMembers⟩ := writtenMembers json (List.cons_ne_nil next later)
      (fun other among => members other (List.mem_cons_of_mem _ among))
      fun other among => values other (List.mem_cons_of_mem _ among)
    obtain ⟨N, written⟩ := value.written
    obtain ⟨N', writtenLater⟩ := laterMembers.written
    refine ⟨_, ⟨max N N', fun fuel enough => writeFields_more (json.plain field member)
      (written fuel (le_of_max_le_left enough)) (writtenLater fuel (le_of_max_le_right enough))⟩, ?_, ?_⟩
    · exact ⟨_, quoted_append, (json.names field member).blocked _⟩
    · intro rest trapped woven
      -- behind the value stands the key of the next field
      obtain ⟨tail, key, blocked⟩ := laterMembers.key
      have next : Trapped (charByte ',' :: (laterText ++ charByte '\x7d' :: rest)) := by
        rw [key]
        exact (Trapped.quote (blocked.append _)).cons (by decide) (by decide)
      rw [List.append_assoc, List.cons_append, List.append_assoc, List.cons_append]
      exact (value.woven next (.byte (by decide) (laterMembers.woven trapped woven))).quoted
        (json.names field member).plain

/-- **An object is written**, if its fields are. -/
theorem WrittenMembers.whole {members : List UInt8} (json : JsonObject P.reg descriptor)
    (found : metaGetDescriptor P.reg type = some descriptor)
    (fields : WrittenMembers P mem L object descriptor.fields members) :
    WrittenObject P mem L type object (typedObject descriptor.name members) := by
  obtain ⟨N, written⟩ := fields.written
  refine ⟨⟨N, fun fuel enough => writeJsonObject_members found (written fuel enough)⟩, ?_⟩
  intro rest trapped woven
  have inner := (Woven.byte (L := L) (c := charByte ',') (by decide) (fields.woven trapped woven)).quoted
    json.name.plain
  have whole := Woven.byte (L := L) (c := charByte '\x7b') (by decide)
    ((Woven.byte (L := L) (c := charByte ':') (by decide) inner).quoted typeNameKey_plain)
  simpa only [typedObject, List.cons_append, List.append_assoc, List.nil_append] using whole

variable (mem object) in
/-- An object is written, if the values of its fields are. -/
theorem writtenObject (types : JsonTypes P.reg) (found : metaGetDescriptor P.reg type = some descriptor)
    (kind : descriptor.typeClass = .object)
    (values : ∀ field ∈ descriptor.fields, ∀ fieldType, metaGetDescriptor P.reg field.type =
      some fieldType →
      fieldType.Supported → ∃ text, WrittenText P mem L field.type (object + field.offset) text) :
    ∃ members, WrittenObject P mem L type object (typedObject descriptor.name members) := by
  have json := types _ _ found kind
  obtain ⟨members, fields⟩ := writtenMembers json json.nonempty (fun _ member => member)
    fun field member => by
    obtain ⟨fieldType, foundField, supported, -⟩ := json.types field member
    exact values field member fieldType foundField supported
  exact ⟨members, fields.whole json found⟩

/-- **Every supported value in memory is written**, whatever its strings are. -/
theorem writtenValue (single : ∀ c, L [c]) (listed : ∀ content, ok content → L content)
    (types : JsonTypes P.reg) (holds : HoldsObject P.reg mem ok type object)
    (found : metaGetDescriptor P.reg type = some descriptor) (supported : descriptor.Supported) :
    ∃ text, WrittenText P mem L type object text := by
  induction holds generalizing descriptor with
  | primitive found' kind =>
    obtain rfl := Option.some.inj (found.symm.trans found')
    rw [MetaDescriptor.Supported, kind] at supported
    exact ⟨_, writtenPrimitive mem _ single found kind supported⟩
  | string found' kind nonnull is fine =>
    obtain rfl := Option.some.inj (found.symm.trans found')
    rw [MetaDescriptor.Supported, kind] at supported
    exact ⟨_, writtenString found kind supported nonnull is (listed _ fine)⟩
  | object found' kind _ ih =>
    obtain rfl := Option.some.inj (found.symm.trans found')
    obtain ⟨members, whole⟩ := writtenObject mem _ types found kind
      fun field member _ foundField supported => ih field member foundField supported
    obtain ⟨N, written⟩ := whole.written
    refine ⟨typedObject descriptor.name members, ⟨N + 1, fun fuel enough => ?_⟩, fun trapped woven => ?_⟩
    · obtain ⟨fuel, rfl⟩ := Nat.exists_eq_add_of_le' (Nat.one_le_of_lt enough)
      rw [writeJsonDescriptor, found]
      simp only [kind]
      rw [written fuel (by omega), Option.map_some]
    · exact .byte (by decide) (whole.woven trapped woven)

end Written

end Vaudou
