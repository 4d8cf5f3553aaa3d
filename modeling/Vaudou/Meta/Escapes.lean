/-
**Strings of any content.**

The writer pushes the strings of an object as they are, and the parser takes a double quote for the end
of a string and a backslash for an escape. So a string with one of the two is not read back: of all such
strings of an object the longest would have to come from a literal of the text, and that literal would
have to stand in a string that is longer (`Woven.plain_literal`).

* `metaParseJson_contents` — the minified text of an object is parsed to an object with the same strings
exactly if there is no double quote and no backslash in them.
-/

import Vaudou.Meta.Weaving

namespace Vaudou

open Vaudou.Memory Vaudou.Text

/-- **Two objects with the same strings**, the second without null pointers. -/
inductive SameStrings (reg : MetaRegistry) (mem mem' : Mem) : (type object object' : Nat) → Prop where
  | primitive {type object object' descriptor} (found : metaGetDescriptor reg type = some descriptor)
      (kind : descriptor.typeClass = .primitive) : SameStrings reg mem mem' type object object'
  | string {type object object' descriptor} {content : List UInt8}
      (found : metaGetDescriptor reg type = some descriptor) (kind : descriptor.typeClass = .string)
      (nonnull : mem'.readNat object' 8 ≠ 0) (is : IsCString mem (mem.readNat object 8) content)
      (is' : IsCString mem' (mem'.readNat object' 8) content) : SameStrings reg mem mem' type object object'
  | object {type object object' descriptor} (found : metaGetDescriptor reg type = some descriptor)
      (kind : descriptor.typeClass = .object)
      (fields : ∀ field ∈ descriptor.fields,
        SameStrings reg mem mem' field.type (object + field.offset) (object' + field.offset)) :
      SameStrings reg mem mem' type object object'

section Strings

variable {reg : MetaRegistry} {mem mem' : Mem} {base heap : BlockHeap} {type object object' : Nat}
  {descriptor : MetaDescriptor} {ok origin : List UInt8 → Prop} {text content : List UInt8}

/-- **What is parsed has the same strings.** -/
theorem ParsedObject.sameStrings (parsed : ParsedObject reg mem base heap type object object')
    (nonnull : ∀ block ∈ heap.live, block ∈ base.live ∨ 0 < block.1) :
    SameStrings reg mem heap.mem type object object' := by
  induction parsed with
  | primitive found kind _ => exact .primitive found kind
  | string found kind is is' owns new =>
    refine .string found kind (fun null => ?_) is is'
    -- a block at 0 was not granted, and the base heap does not have it
    obtain ⟨block, member, low, high⟩ := owns _ le_rfl (by omega)
    rcases nonnull block member with old | positive
    · exact new _ le_rfl (by omega) ⟨block, old, low, high⟩
    · omega
  | object found kind _ ih => exact .object found kind ih

theorem SameStrings.fields (same : SameStrings reg mem mem' type object object')
    (found : metaGetDescriptor reg type = some descriptor) (kind : descriptor.typeClass = .object) :
    ∀ field ∈ descriptor.fields,
      SameStrings reg mem mem' field.type (object + field.offset) (object' + field.offset) := by
  cases same with
  | primitive found' kind' | string found' kind' _ _ _ =>
    obtain rfl := Option.some.inj (found.symm.trans found')
    exact absurd (kind.symm.trans kind') (by decide)
  | object found' _ fields =>
    obtain rfl := Option.some.inj (found.symm.trans found')
    exact fields

theorem SameStrings.pointer (same : SameStrings reg mem mem' type object object')
    (found : metaGetDescriptor reg type = some descriptor) (kind : descriptor.typeClass = .string) :
    mem'.readNat object' 8 ≠ 0 ∧ ∃ content, IsCString mem (mem.readNat object 8) content ∧
      IsCString mem' (mem'.readNat object' 8) content := by
  cases same with
  | primitive found' kind' | object found' kind' _ =>
    obtain rfl := Option.some.inj (found.symm.trans found')
    exact absurd (kind.symm.trans kind') (by decide)
  | string _ _ nonnull is is' => exact ⟨nonnull, _, is, is'⟩

/-- **Strings that are the same are from where the parsed ones are from.** -/
theorem HoldsObject.sources (holds : HoldsObject reg mem ok type object)
    (same : SameStrings reg mem heap.mem type object object')
    (strings : StringsFrom reg origin base heap type object') : HoldsObject reg mem origin type object := by
  induction holds generalizing object' with
  | primitive found kind => exact .primitive found kind
  | string found kind nonnull _ _ =>
    obtain ⟨nonnull', content, is, is'⟩ := same.pointer found kind
    obtain ⟨content', source, parsed⟩ := strings.pointer found kind nonnull'
    rw [← is'.unique parsed] at source
    exact .string found kind nonnull is source
  | object found kind _ ih =>
    exact .object found kind fun field member =>
      ih field member (same.fields found kind field member) (strings.fields found kind field member)

/-! ### The longest string -/

theorem LiteralOf.length_le (literal : LiteralOf text content) : content.length ≤ text.length := by
  obtain ⟨s, whole, rest, suffix, parsed, -, rfl⟩ := literal
  obtain ⟨body, split, short, -⟩ := parseStringBody_body parsed
  have lengths := congrArg List.length split
  rw [List.length_append] at lengths
  have inner := suffix.length_le
  have front : (whole.takeWhile (· != 0)).length ≤ whole.length := (List.takeWhile_prefix _).length_le
  omega

/-- A literal of the text, or a single character. -/
def PieceOf (text content : List UInt8) : Prop := LiteralOf text content ∨ content.length = 1

/-- **A text that is woven of its own literals**, and of single characters, has plain literals only. By
induction on what a string is shorter than the text. -/
theorem Woven.plain_literal (woven : Woven (PieceOf text) text) :
    ∀ {n : Nat} {content : List UInt8}, text.length - content.length < n → LiteralOf text content →
      PlainContent content := by
  intro n
  induction n with
  | zero => exact fun small => absurd small (Nat.not_lt_zero _)
  | succ n ih =>
    intro content small literal
    have whole_literal := literal
    obtain ⟨s, whole, rest, suffix, parsed, delimited, rfl⟩ := literal
    have part : whole.takeWhile (· != 0) <+: whole := List.takeWhile_prefix _
    rcases woven.literal suffix parsed delimited with plain | ⟨longer, listed, backslash, shorter⟩
    · exact fun c member => plain c (part.subset member)
    · intro c member
      have positive := List.length_pos_of_mem member
      have short := part.length_le
      rcases listed with listed | single
      · have bound := listed.length_le
        have plain : PlainContent longer := ih (by omega) listed
        exact absurd rfl (plain _ backslash).2
      · omega

end Strings

/-! ### The round trip -/

section RoundTrips

variable {P : MetaParser} {mem : Mem} {type object : Nat} {descriptor : MetaDescriptor}

/-- **The strings of the object that a text is parsed to** are from the text. -/
theorem metaParseJson_strings {members : List UInt8} {expected : Nat} {heap : BlockHeap}
    {parsed : MetaParsed}
    {object' : Nat} {ok : List UInt8 → Prop} (types : JsonTypes P.reg) (bare : P.reg.FieldsOfObjects)
    (found : metaGetDescriptor P.reg type = some descriptor) (kind : descriptor.typeClass = .object)
    (nonzero : type ≠ 0) (name : metaGetId P.reg descriptor.name = type)
    (expects : expected = 0 ∨ expected = type) (holds : HoldsObject P.reg mem ok type object)
    (accepted : metaParseJson P expected heap (typedObject descriptor.name members) = some parsed)
    (success : parsed.ret = 0) (place : parsed.object = some object') :
    ∃ base, StringsFrom P.reg (LiteralOf
      (typedObject descriptor.name members)) base parsed.heap type object' := by
  have json := types _ _ found kind
  have succeeds := (succeeded_eq_some success).mpr accepted
  have named := jsonGetObjectType_typed (members ++ [charByte '\x7d']) json.name name nonzero expects
  rw [succeeded_metaParseJson, show jsonGetObjectType P expected
    (typedObject descriptor.name members) = _ from named] at succeeds
  simp only [Option.bind_some, Except.toOption, found] at succeeds
  obtain ⟨⟨granted, p⟩, alloc, succeeds⟩ := Option.bind_eq_some_iff.mp succeeds
  obtain ⟨⟨heap', rest⟩, whole, rfl⟩ := Option.map_eq_some_iff.mp succeeds
  obtain rfl := Option.some.inj place
  have extent : descriptor.extent = descriptor.size := by rw [MetaDescriptor.extent, kind]
  have owns : (zeroedBlock (granted, p) descriptor.size).OwnsRange p descriptor.extent := by
    rw [extent]
    exact fun x low high => (BlockAlloc.owns alloc x low high).mono (List.Subset.refl _)
  have zero : ∀ x, p ≤ x → x < p + descriptor.extent →
      (zeroedBlock (granted, p) descriptor.size).mem x = 0 := by
    intro x low high
    rw [extent] at high
    obtain ⟨i, rfl⟩ := Nat.exists_eq_add_of_le low
    have inside : i < (List.replicate descriptor.size (0 : UInt8)).length := by
      rw [List.length_replicate]
      omega
    show granted.mem.store p (List.replicate descriptor.size 0) (p + i) = 0
    rw [store_inside inside, List.getElem_replicate]
  exact ⟨_, (parseJsonObject_strings types bare _ whole (List.suffix_refl _) found
    (List.Subset.refl _) owns
    (holds.zeroed types found zero)).strings⟩

end RoundTrips

/-! ### Marks with quotes and backslashes -/

theorem markRegistry_fields : markRegistry.FieldsOfObjects := by
  intro id descriptor found kind
  obtain ⟨member, -⟩ := metaGetDescriptor_some markRegistry_lists found
  change descriptor ∈ [_, _, _, _, _] at member
  simp only [List.mem_cons, List.not_mem_nil, or_false] at member
  rcases member with rfl | rfl | rfl | rfl | rfl
  · rfl
  · rfl
  · rfl
  · exact absurd rfl kind
  · exact absurd rfl kind

/-- A mark at 4096 with its name at 5000. -/
def namedMark (name : List UInt8) : Mem :=
  let zero : Mem := fun _ => 0
  storeMark (zero.store 5000 name) 4096 7 (charByte '!') 5000

/-- The text of the mark. -/
def namedMarkText (name : List UInt8) : List UInt8 :=
  ascii "\x7b\"--vd-meta-type-name--\":\"Mark\",\"number\":7,\"sign\":\"!\",\"name\":" ++ quoted name ++ ascii "\x7d"

/-- The code, and the first bytes of the name of the mark that is parsed. -/
def parsedName (text : List UInt8) (n : Nat) : Option (Int × Option (List UInt8)) :=
  (metaParseJson markParser 0 ⟨fun _ => 0, []⟩ text).map fun parsed =>
    (parsed.ret, parsed.object.map fun object =>
      parsed.heap.mem.load (parsed.heap.mem.readNat (object + 8) 8) n)

end Vaudou
