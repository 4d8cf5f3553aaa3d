/-
**The parser makes progress.**

What is in a key that could not be parsed is taken as arbitrary: `parseMembersWith` and its callers ask
`keys` at the place of the key, and with the same bytes everywhere they are the parser
(`metaParseJsonWith_unset`). No procedure returns more of the text than it got, and every round of a loop and
every object takes a character, so beyond the length of the text the fuel does not matter.

* `jsonGetObjectTypeWith_some` — the type scan ends.
* `parseJsonObjectWith_fuel` — objects are parsed alike with every fuel above the length of their text.
-/

import Vaudou.Meta.Leaves

namespace Vaudou

open Vaudou.Memory Vaudou.Text

/-! ### Keys that are left unset -/

/-- The bytes in a key that is left unset, by the text at its place. -/
abbrev UnsetKeys := List UInt8 → List UInt8

section Unset

variable (P : MetaParser) (keys : UnsetKeys)

/-- `parseMembers`, where the bytes of a key that is left unset are arbitrary. -/
def parseMembersWith (parseObject : ParseProc) (descriptor : MetaDescriptor) (object : Nat) :
    (fuel : Nat) → BlockHeap → List UInt8 → ParseResult
  | 0, _, _ => none
  | fuel + 1, heap, s =>
    let key := parseKey (keys (skipWhitespace s)) (skipWhitespace s)
    match expectChar (charByte ':') (skipWhitespace key.2) with
    | none => some (heap, .error metaInvalidJson)
    | some rest =>
      match findField descriptor key.1 with
      | none =>
        match jsonSkipValue (skipWhitespace rest) with
        | (false, _) => some (heap, .error metaInvalidJson)
        | (true, rest) => parseMembersWith parseObject descriptor object fuel heap rest
      | some field =>
        (parseJsonField P parseObject field heap (skipWhitespace rest)
            (object + field.offset)).andThen fun heap rest =>
          match expectChar (charByte '\x7d') (skipWhitespace rest) with
          | some rest => some (heap, .ok rest)
          | none =>
            match expectChar (charByte ',') (skipWhitespace rest) with
            | some rest => parseMembersWith parseObject descriptor object fuel heap rest
            | none => some (heap, .error metaInvalidJson)

/-- `parseJsonObject`, likewise. -/
def parseJsonObjectWith : (fuel : Nat) → ParseProc
  | 0, _, _, _, _ => none
  | fuel + 1, heap, s, type, object =>
    match metaGetDescriptor P.reg type with
    | none => some (heap, .error metaDescriptorNotFound)
    | some descriptor =>
      match expectChar (charByte '\x7b') (skipWhitespace s) with
      | none => some (heap, .error metaInvalidJson)
      | some rest =>
        parseMembersWith P keys (parseJsonObjectWith fuel) descriptor object (rest.length + 1) heap rest

/-- `objectTypeLoop`, likewise. -/
def objectTypeLoopWith (expected : Nat) : (fuel : Nat) → List UInt8 → Option (Except Int Nat)
  | 0, _ => none
  | fuel + 1, s =>
    match expectChar (charByte '\x7d') (skipWhitespace s) with
    | some _ => some (if expected ≠ 0 then .ok expected else .error metaTypeNotFound)
    | none =>
      if (skipWhitespace s).isEmpty then some (.error metaInvalidJson)
      else
        let key := parseKey (keys (skipWhitespace s)) (skipWhitespace s)
        match expectChar (charByte ':') (skipWhitespace key.2) with
        | none => some (.error metaInvalidJson)
        | some rest =>
          if key.1 = typeNameKey then
            some (namedType P expected
              (parseKey (keys (skipWhitespace rest)) (skipWhitespace rest)).1)
          else
            let behind := skipWhitespace (jsonSkipValue (skipWhitespace rest)).2
            objectTypeLoopWith expected fuel ((expectChar (charByte ',') behind).getD behind)

/-- `jsonGetObjectType`, likewise. -/
def jsonGetObjectTypeWith (expected : Nat) (s : List UInt8) : Option (Except Int Nat) :=
  match expectChar (charByte '\x7b') (skipWhitespace s) with
  | none => some (.error metaInvalidJson)
  | some rest => objectTypeLoopWith P keys expected (rest.length + 1) rest

/-- `metaParseJson`, with the keys that the type scan and the parse leave unset. -/
def metaParseJsonWith (scan parse : UnsetKeys) (expected : Nat) (heap : BlockHeap) (json : List UInt8) :
    Option MetaParsed :=
  (jsonGetObjectTypeWith P scan expected json).bind fun
    | .error code => some ⟨heap, code, none, none⟩
    | .ok type =>
      match metaGetDescriptor P.reg type with
      | none => some ⟨heap, metaDescriptorNotFound, none, none⟩
      | some descriptor =>
        (P.alloc.alloc heap descriptor.size).bind fun granted =>
          let zeroed := granted.1.mem.store granted.2 (List.replicate descriptor.size 0)
          (parseJsonObjectWith P parse (json.length + 1) { granted.1 with mem := zeroed } json type
              granted.2).map fun parsed =>
            ⟨parsed.1, resultCode parsed.2, some granted.2, some type⟩

theorem parseMembersWith_unset (parseObject : ParseProc) (descriptor : MetaDescriptor) (object : Nat) :
    ∀ (fuel : Nat) (heap : BlockHeap) (s : List UInt8),
      parseMembersWith P (fun _ => P.unset) parseObject descriptor object fuel heap s =
        parseMembers P parseObject descriptor object fuel heap s
  | 0, _, _ => rfl
  | fuel + 1, heap, s => by
    rw [parseMembersWith, parseMembers]
    simp only [parseMembersWith_unset parseObject descriptor object fuel] <;> rfl

theorem parseJsonObjectWith_unset : ∀ fuel : Nat,
    parseJsonObjectWith P (fun _ => P.unset) fuel = parseJsonObject P fuel
  | 0 => rfl
  | fuel + 1 => by
    funext heap s type object
    rw [parseJsonObjectWith, parseJsonObject]
    simp only [parseJsonObjectWith_unset fuel, parseMembersWith_unset] <;> rfl

theorem objectTypeLoopWith_unset (expected : Nat) : ∀ (fuel : Nat) (s : List UInt8),
    objectTypeLoopWith P (fun _ => P.unset) expected fuel s = objectTypeLoop P expected fuel s
  | 0, _ => rfl
  | fuel + 1, s => by
    rw [objectTypeLoopWith, objectTypeLoop]
    simp only [objectTypeLoopWith_unset expected fuel] <;> rfl

/-- **With the same bytes in every unset key** it is the parser. -/
theorem metaParseJsonWith_unset (expected : Nat) (heap : BlockHeap) (json : List UInt8) :
    metaParseJsonWith P (fun _ => P.unset) (fun _ => P.unset) expected heap json =
      metaParseJson P expected heap json := by
  unfold metaParseJsonWith metaParseJson jsonGetObjectTypeWith jsonGetObjectType
  simp only [objectTypeLoopWith_unset, parseJsonObjectWith_unset] <;> rfl

end Unset

/-! ### What is left of a text -/

/-- `strtof` and `strtod` return an end of their text. -/
structure CFloat.Advances (floats : CFloat) : Prop where
  strtof : ∀ s, (floats.strtof s).2 <:+ s
  strtod : ∀ s, (floats.strtod s).2 <:+ s

theorem CFloat.ReadsTokens.advances {floats : CFloat} (reads : floats.ReadsTokens) : floats.Advances :=
  ⟨reads.strtof.suffix, reads.strtod.suffix⟩

/-- At most so many characters are left. -/
def ParseResult.Within (result : ParseResult) (n : Nat) : Prop :=
  ∀ heap rest, result = some (heap, .ok rest) → rest.length ≤ n

/-- A procedure that leaves no more than it got. -/
def ParseProc.Advances (parseObject : ParseProc) : Prop :=
  ∀ heap s type object, (parseObject heap s type object).Within s.length

/-- Two procedures that agree on texts of at most so many characters. -/
def ParseProc.Agree (n : Nat) (parseObject parseObject' : ParseProc) : Prop :=
  ∀ heap s type object, s.length ≤ n → parseObject heap s type object = parseObject' heap s type object

section Lengths

variable {s rest : List UInt8} {c : UInt8} {n m : Nat} {result : ParseResult} {heap : BlockHeap}

theorem skipWhitespace_length : (skipWhitespace s).length ≤ s.length :=
  (List.dropWhile_suffix isWhitespace).length_le

theorem expectChar_length (expected : expectChar c s = some rest) : s.length = rest.length + 1 := by
  rw [expectChar_some expected, List.length_cons]

theorem parseKey_length {unset : List UInt8} : (parseKey unset s).2.length ≤ s.length := by
  unfold parseKey
  cases parsed : parseJsonString s with
  | none => exact Nat.le_refl _
  | some result => exact (parseJsonString_suffix parsed).length_le

theorem jsonSkipLoop_length : ∀ {s : List UInt8} {brackets braces : Int},
    (jsonSkipLoop brackets braces s).2.length ≤ s.length
  | [], _, _ => Nat.le_refl 0
  | c :: s, brackets, braces => by
    rw [jsonSkipLoop, List.length_cons]
    split_ifs
    · exact Nat.le_succ _
    · exact jsonSkipLoop_length.trans (Nat.le_succ _)
    · exact jsonSkipLoop_length.trans (Nat.le_succ _)
    · exact jsonSkipLoop_length.trans (Nat.le_succ _)
    · exact jsonSkipLoop_length.trans (Nat.le_succ _)
    · exact Nat.le_succ _
    · exact jsonSkipLoop_length.trans (Nat.le_succ _)

theorem jsonSkipValue_length {found : Bool} (skipped : jsonSkipValue s = (found, rest)) :
    rest.length ≤ s.length := by
  have length : (jsonSkipValue s).2.length ≤ s.length := jsonSkipLoop_length
  rwa [skipped] at length

/-- **A key and its colon** take a character. -/
theorem colon_length {unset : List UInt8}
    (colon : expectChar (charByte ':') (skipWhitespace (parseKey unset (skipWhitespace s)).2) = some rest) :
    rest.length < s.length := by
  have whole := expectChar_length colon
  have key := (skipWhitespace_length (s := (parseKey unset (skipWhitespace s)).2)).trans
    (parseKey_length.trans skipWhitespace_length)
  omega

theorem within_ok (short : rest.length ≤ n) : ParseResult.Within (some (heap, .ok rest)) n := by
  intro heap' rest' same
  cases same
  exact short

theorem within_error {code : Int} : ParseResult.Within (some (heap, .error code)) n :=
  fun _ _ same => nomatch same

theorem ParseResult.Within.mono (within : result.Within n) (more : n ≤ m) : result.Within m :=
  fun heap rest same => (within heap rest same).trans more

theorem ParseResult.Within.andThen {step : BlockHeap → List UInt8 → ParseResult} (within : result.Within n)
    (steps : ∀ heap rest, rest.length ≤ n → (step heap rest).Within m) : (result.andThen step).Within m := by
  cases result with
  | none => exact fun _ _ same => nomatch same
  | some outcome =>
    obtain ⟨heap, code | rest⟩ := outcome
    · exact within_error
    · exact steps heap rest (within heap rest rfl)

theorem ParseResult.Within.andThen_congr {step step' : BlockHeap → List UInt8 → ParseResult}
    (within : result.Within n) (steps : ∀ heap rest, rest.length ≤ n → step heap rest = step' heap rest) :
    result.andThen step = result.andThen step' := by
  cases result with
  | none => rfl
  | some outcome =>
    obtain ⟨heap, code | rest⟩ := outcome
    · rfl
    · exact steps heap rest (within heap rest rfl)

end Lengths

section Advancing

variable {P : MetaParser} {parseObject parseObject' : ParseProc} {n : Nat} {field : MetaField}
  {descriptor : MetaDescriptor} {heap : BlockHeap} {s : List UInt8} {type object : Nat}

theorem parsePrimitive_length (floats : P.floats.Advances) (mem : Mem) (kind : MetaPrimitiveType) :
    (parsePrimitive P mem s object kind).2.length ≤ s.length := by
  cases kind with
  | i8 | i16 | i32 => exact ((strtol_readsToken P.longBits).suffix s).length_le
  | u8 | u16 | u32 => exact ((strtoul_readsToken P.longBits).suffix s).length_le
  | i64 => exact ((strtol_readsToken 64).suffix s).length_le
  | u64 => exact ((strtoul_readsToken 64).suffix s).length_le
  | f32 => exact (floats.strtof s).length_le
  | f64 => exact (floats.strtod s).length_le
  | char8 =>
    unfold parsePrimitive
    cases opened : expectChar (charByte '"') s with
    | none => exact Nat.le_refl _
    | some inner =>
      simp only
      cases closed : expectChar (charByte '"') (readChar inner).2 with
      | none => exact Nat.le_refl _
      | some rest =>
        have outer := expectChar_length opened
        have last := expectChar_length closed
        have char := (readChar_suffix (s := inner)).length_le
        simp only
        omega

theorem parseJsonDescriptor_advances (floats : P.floats.Advances) (objects : parseObject.Advances)
    (type : Nat) (descriptor : Option MetaDescriptor) (heap : BlockHeap) (s : List UInt8) (object : Nat) :
    (parseJsonDescriptor P parseObject type descriptor heap s object).Within s.length := by
  unfold parseJsonDescriptor
  split
  · exact objects heap s type object
  · cases descriptor with
    | none => exact fun _ _ same => nomatch same
    | some descriptor =>
      rw [Option.bind_some]
      split
      · exact within_ok (parsePrimitive_length floats _ _)
      · split
        · unfold parseCString
          split
          · exact within_ok (Nat.le_refl _)
          · next key rest parsed =>
            cases P.alloc.alloc heap (key.length + 1) with
            | none => exact fun _ _ same => nomatch same
            | some granted => exact within_ok (parseJsonString_suffix parsed).length_le
        · exact within_ok (Nat.le_refl _)
      · exact within_ok (Nat.le_refl _)
      · exact within_ok (Nat.le_refl _)

theorem parseJsonDescriptor_agree (agree : parseObject.Agree n parseObject') (short : s.length ≤ n)
    (descriptor : Option MetaDescriptor) :
    parseJsonDescriptor P parseObject type descriptor heap s object =
      parseJsonDescriptor P parseObject' type descriptor heap s object := by
  unfold parseJsonDescriptor
  rw [agree heap s type object short]

theorem parseFixedElement_advances (floats : P.floats.Advances) (objects : parseObject.Advances) (i : Nat)
    (heap : BlockHeap) (s : List UInt8) (object : Nat) :
    (parseFixedElement P parseObject field i heap s object).Within s.length := by
  unfold parseFixedElement
  split
  · exact within_error
  · cases metaGetDescriptor P.reg field.type with
    | none => exact fun _ _ same => nomatch same
    | some descriptor => exact parseJsonDescriptor_advances floats objects _ _ _ _ _

theorem parseIntrusiveElement_advances (floats : P.floats.Advances) (objects : parseObject.Advances)
    (heap : BlockHeap) (s : List UInt8) (object : Nat) :
    (parseIntrusiveElement P parseObject field heap s object).Within s.length := by
  unfold parseIntrusiveElement
  cases metaGetDescriptor P.reg field.type with
  | none => exact fun _ _ same => nomatch same
  | some descriptor =>
    rw [Option.bind_some]
    cases fieldArrayAdd P field descriptor.size heap object with
    | none => exact fun _ _ same => nomatch same
    | some added => exact parseJsonDescriptor_advances floats objects _ _ _ _ _

theorem parseFixedElement_agree (agree : parseObject.Agree n parseObject') (short : s.length ≤ n) (i : Nat) :
    parseFixedElement P parseObject field i heap s object =
      parseFixedElement P parseObject' field i heap s object := by
  unfold parseFixedElement
  simp only [parseJsonDescriptor_agree agree short]

theorem parseIntrusiveElement_agree (agree : parseObject.Agree n parseObject') (short : s.length ≤ n) :
    parseIntrusiveElement P parseObject field heap s object =
      parseIntrusiveElement P parseObject' field heap s object := by
  unfold parseIntrusiveElement
  simp only [parseJsonDescriptor_agree agree short]

/-! ### A round of the elements -/

/-- An element of a fixed array, if the field is one. -/
def fixedPart (P : MetaParser) (parseObject : ParseProc) (field : MetaField) (i : Nat) (heap : BlockHeap)
    (s : List UInt8) (object : Nat) : ParseResult :=
  if field.isFixedArray then parseFixedElement P parseObject field i heap s object else some (heap, .ok s)

/-- A new element of an intrusive array, if the field is one. -/
def intrusivePart (P : MetaParser) (parseObject : ParseProc) (field : MetaField) (heap : BlockHeap)
    (s : List UInt8) (object : Nat) : ParseResult :=
  if field.isIntrusiveArray then parseIntrusiveElement P parseObject field heap s object
  else some (heap, .ok s)

/-- What is behind an element: the end, or the next one. -/
def afterElement (next : BlockHeap → List UInt8 → ParseResult) (heap : BlockHeap) (s : List UInt8) :
    ParseResult :=
  match expectChar (charByte ']') s with
  | some rest => some (heap, .ok rest)
  | none =>
    match expectChar (charByte ',') s with
    | some rest => next heap rest
    | none => some (heap, .error metaInvalidJson)

theorem parseElements_parts (fuel i : Nat) :
    parseElements P parseObject field object (fuel + 1) i heap s =
      (fixedPart P parseObject field i heap (skipWhitespace s) object).andThen fun heap s =>
        (intrusivePart P parseObject field heap s object).andThen
          (afterElement (parseElements P parseObject field object fuel (i + 1))) := rfl

theorem fixedPart_advances (floats : P.floats.Advances) (objects : parseObject.Advances) (i : Nat)
    (heap : BlockHeap) (s : List UInt8) (object : Nat) :
    (fixedPart P parseObject field i heap s object).Within s.length := by
  unfold fixedPart
  split
  · exact parseFixedElement_advances floats objects i heap s object
  · exact within_ok (Nat.le_refl _)

theorem intrusivePart_advances (floats : P.floats.Advances) (objects : parseObject.Advances)
    (heap : BlockHeap) (s : List UInt8) (object : Nat) :
    (intrusivePart P parseObject field heap s object).Within s.length := by
  unfold intrusivePart
  split
  · exact parseIntrusiveElement_advances floats objects heap s object
  · exact within_ok (Nat.le_refl _)

theorem parseElements_advances (floats : P.floats.Advances) (objects : parseObject.Advances) :
    ∀ (fuel i : Nat) (heap : BlockHeap) (s : List UInt8),
      (parseElements P parseObject field object fuel i heap s).Within s.length
  | 0, _, _, _ => fun _ _ same => nomatch same
  | fuel + 1, i, heap, s => by
    rw [parseElements_parts]
    refine (fixedPart_advances floats objects i heap _ object).andThen fun heap' t short =>
      (intrusivePart_advances floats objects heap' t object).andThen fun heap'' r shorter => ?_
    have text := skipWhitespace_length (s := s)
    unfold afterElement
    split
    · next rest closed =>
      have bracket := expectChar_length closed
      exact within_ok (by omega)
    · split
      · next rest separated =>
        have comma := expectChar_length separated
        exact (parseElements_advances floats objects fuel (i + 1) heap'' rest).mono (by omega)
      · exact within_error

/-- **Elements are parsed alike** with every fuel above the length of their text. -/
theorem parseElements_agree (floats : P.floats.Advances) (objects : parseObject.Advances)
    (agree : parseObject.Agree n parseObject') :
    ∀ {fuel fuel' : Nat} (i : Nat) (heap : BlockHeap) (s : List UInt8), s.length ≤ n → s.length < fuel →
      s.length < fuel' → parseElements P parseObject field object fuel i heap s =
        parseElements P parseObject' field object fuel' i heap s
  | fuel + 1, fuel' + 1, i, heap, s, short, enough, enough' => by
    have text := skipWhitespace_length (s := s)
    have fixed : fixedPart P parseObject field i heap (skipWhitespace s) object =
        fixedPart P parseObject' field i heap (skipWhitespace s) object := by
      unfold fixedPart
      rw [parseFixedElement_agree agree (text.trans short) i]
    rw [parseElements_parts, parseElements_parts, ← fixed]
    refine (fixedPart_advances floats objects i heap _ object).andThen_congr fun heap' t shorter => ?_
    have intrusive : intrusivePart P parseObject field heap' t object =
        intrusivePart P parseObject' field heap' t object := by
      unfold intrusivePart
      rw [parseIntrusiveElement_agree agree (by omega)]
    rw [← intrusive]
    refine (intrusivePart_advances floats objects heap' t object).andThen_congr fun heap'' r left => ?_
    unfold afterElement
    split
    · rfl
    · split
      · next rest separated =>
        have comma := expectChar_length separated
        exact parseElements_agree floats objects agree (i + 1) heap'' rest (by omega) (by omega) (by omega)
      · rfl

theorem parseJsonField_advances (floats : P.floats.Advances) (objects : parseObject.Advances)
    (field : MetaField) (heap : BlockHeap) (s : List UInt8) (object : Nat) :
    (parseJsonField P parseObject field heap s object).Within s.length := by
  have text := skipWhitespace_length (s := s)
  unfold parseJsonField
  simp only
  split
  · next rest opened =>
    have bracket := expectChar_length opened
    split
    · exact within_error
    · exact (parseElements_advances floats objects _ 0 heap rest).mono (by omega)
  · split
    · exact within_error
    · exact (parseJsonDescriptor_advances floats objects _ _ _ _ _).mono text

theorem parseJsonField_agree (floats : P.floats.Advances) (objects : parseObject.Advances)
    (agree : parseObject.Agree n parseObject') (short : s.length ≤ n) (field : MetaField) :
    parseJsonField P parseObject field heap s object =
      parseJsonField P parseObject' field heap s object := by
  have text := skipWhitespace_length (s := s)
  unfold parseJsonField
  simp only [parseJsonDescriptor_agree agree (text.trans short)]
  split
  · next rest opened =>
    have bracket := expectChar_length opened
    rw [parseElements_agree floats objects agree 0 heap rest (by omega) (Nat.lt_succ_self _)
      (Nat.lt_succ_self _)]
  · rfl

/-! ### A round of the members -/

variable {keys : UnsetKeys}

theorem parseMembersWith_advances (floats : P.floats.Advances) (objects : parseObject.Advances) :
    ∀ (fuel : Nat) (heap : BlockHeap) (s : List UInt8),
      (parseMembersWith P keys parseObject descriptor object fuel heap s).Within s.length
  | 0, _, _ => fun _ _ same => nomatch same
  | fuel + 1, heap, s => by
    rw [parseMembersWith]
    split
    · exact within_error
    · next rest colon =>
      have behind := colon_length colon
      have text := skipWhitespace_length (s := rest)
      split
      · split
        · exact within_error
        · next later skipped =>
          have left := jsonSkipValue_length skipped
          exact (parseMembersWith_advances floats objects fuel heap later).mono (by omega)
      · next field _ =>
        refine (parseJsonField_advances floats objects field heap _ _).andThen fun heap' r left => ?_
        have white := skipWhitespace_length (s := r)
        split
        · next last closed =>
          have brace := expectChar_length closed
          exact within_ok (by omega)
        · split
          · next later separated =>
            have comma := expectChar_length separated
            exact (parseMembersWith_advances floats objects fuel heap' later).mono (by omega)
          · exact within_error

/-- **Members are parsed alike** with every fuel above the length of their text. -/
theorem parseMembersWith_agree (floats : P.floats.Advances) (objects : parseObject.Advances)
    (agree : parseObject.Agree n parseObject') :
    ∀ {fuel fuel' : Nat} (heap : BlockHeap) (s : List UInt8), s.length ≤ n → s.length < fuel →
      s.length < fuel' → parseMembersWith P keys parseObject descriptor object fuel heap s =
        parseMembersWith P keys parseObject' descriptor object fuel' heap s
  | fuel + 1, fuel' + 1, heap, s, short, enough, enough' => by
    rw [parseMembersWith, parseMembersWith]
    split
    · rfl
    · next rest colon =>
      have behind := colon_length colon
      have text := skipWhitespace_length (s := rest)
      split
      · split
        · rfl
        · next later skipped =>
          have left := jsonSkipValue_length skipped
          exact parseMembersWith_agree floats objects agree heap later (by omega) (by omega) (by omega)
      · next field _ =>
        rw [← parseJsonField_agree floats objects agree (by omega) field]
        refine (parseJsonField_advances floats objects field heap _ _).andThen_congr fun heap' r left => ?_
        have white := skipWhitespace_length (s := r)
        split
        · rfl
        · split
          · next later separated =>
            have comma := expectChar_length separated
            exact parseMembersWith_agree floats objects agree heap' later (by omega) (by omega) (by omega)
          · rfl

/-- No object returns more of the text than it got. -/
theorem parseJsonObjectWith_advances (floats : P.floats.Advances) : ∀ fuel : Nat,
    (parseJsonObjectWith P keys fuel).Advances
  | 0 => fun _ _ _ _ _ _ same => nomatch same
  | fuel + 1 => by
    intro heap s type object
    rw [parseJsonObjectWith]
    split
    · exact within_error
    · split
      · exact within_error
      · next rest opened =>
        have text := skipWhitespace_length (s := s)
        have brace := expectChar_length opened
        exact (parseMembersWith_advances floats (parseJsonObjectWith_advances floats fuel) _ _ _).mono
          (by omega)

/-- **Objects are parsed alike** with every fuel above the length of their text. -/
theorem parseJsonObjectWith_fuel (floats : P.floats.Advances) : ∀ {fuel fuel' : Nat} (heap : BlockHeap)
    (s : List UInt8) (type object : Nat), s.length < fuel → s.length < fuel' →
      parseJsonObjectWith P keys fuel heap s type object =
        parseJsonObjectWith P keys fuel' heap s type object
  | fuel + 1, fuel' + 1, heap, s, type, object, enough, enough' => by
    rw [parseJsonObjectWith, parseJsonObjectWith]
    split
    · rfl
    · split
      · rfl
      · next rest opened =>
        have text := skipWhitespace_length (s := s)
        have brace := expectChar_length opened
        refine parseMembersWith_agree floats (parseJsonObjectWith_advances floats fuel)
          (fun heap' t type' object' short => ?_) heap rest (Nat.le_refl _) (Nat.lt_succ_self _)
          (Nat.lt_succ_self _)
        exact parseJsonObjectWith_fuel floats heap' t type' object' (by omega) (by omega)

end Advancing

/-! ### The type scan -/

section Scan

variable {P : MetaParser} {keys : UnsetKeys} {expected : Nat}

/-- **The type scan ends**: every round takes a colon. -/
theorem objectTypeLoopWith_some : ∀ {fuel : Nat} {s : List UInt8}, s.length < fuel →
    ∃ outcome, objectTypeLoopWith P keys expected fuel s = some outcome
  | fuel + 1, s, enough => by
    rw [objectTypeLoopWith]
    split
    · exact ⟨_, rfl⟩
    · split
      · exact ⟨_, rfl⟩
      · simp only
        split
        · exact ⟨_, rfl⟩
        · next rest colon =>
          split
          · exact ⟨_, rfl⟩
          · have behind := colon_length colon
            have text := skipWhitespace_length (s := rest)
            have left := jsonSkipValue_length (Prod.eta (jsonSkipValue (skipWhitespace rest))).symm
            have white := skipWhitespace_length (s := (jsonSkipValue (skipWhitespace rest)).2)
            refine objectTypeLoopWith_some ?_
            cases separated : expectChar (charByte ',')
                (skipWhitespace (jsonSkipValue (skipWhitespace rest)).2) with
            | none =>
              rw [Option.getD_none]
              omega
            | some later =>
              have comma := expectChar_length separated
              rw [Option.getD_some]
              omega

theorem jsonGetObjectTypeWith_some (P : MetaParser) (keys : UnsetKeys) (expected : Nat) (s : List UInt8) :
    ∃ outcome, jsonGetObjectTypeWith P keys expected s = some outcome := by
  unfold jsonGetObjectTypeWith
  split
  · exact ⟨_, rfl⟩
  · exact objectTypeLoopWith_some (Nat.lt_succ_self _)

end Scan

end Vaudou
