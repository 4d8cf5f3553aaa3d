/-
**An expected type and the type hint.**

The type scan does not stop at the brace that closes an object: the skipper runs over it, and over everything
up to the end of the text. So without a type-name member a text is refused, unless the skipper is misled.
`TypeFound` is the language of the texts behind the opening brace in which the scan finds the expected type.

* `objectTypeLoop_found_iff` — the scan succeeds exactly on these texts.
* `metaParseJson_unhinted` — a text whose type-name member is taken away is parsed to the same result only if
  the expected type is found in what is left, and if the parser passes over the member it is.
-/

import Vaudou.Meta.Returning
import Vaudou.Meta.Soundness

namespace Vaudou

open Vaudou.Memory Vaudou.Text

/-! ### Texts in which the type is found -/

/-- **The expected type is found**: behind members of other names there is a closing brace, or a type-name
member that names it. The skipper stops where its counters let it, at a comma or at a 0. -/
inductive TypeFound (P : MetaParser) (expected : Nat) : (text : List UInt8) → Prop where
  | closed {blank rest} : Blank blank → TypeFound P expected (blank ++ charByte '\x7d' :: rest)
  | named {key rest} : KeySyntax P typeNameKey key →
      metaGetId P.reg (parseKey P.unset (skipWhitespace rest)).1 = expected →
        TypeFound P expected (key ++ rest)
  | later {name key value counters stop blank comma rest} : KeySyntax P name key → name ≠ typeNameKey →
      skipScan (some (0, 0)) value = some counters → skipStep (some counters) stop = none → Blank blank →
        (comma = [] ∨ comma = [charByte ',']) → TypeFound P expected rest →
          TypeFound P expected (key ++ (value ++ stop :: (blank ++ (comma ++ rest))))

/-- The text of an object with the type-name member in front. -/
def hintedText (key name : Literal) (rest : List UInt8) : List UInt8 :=
  charByte '\x7b' :: (quoted key.body ++ charByte ':' :: (quoted name.body ++ charByte ',' :: rest))

/-- The text without that member. -/
def unhintedText (rest : List UInt8) : List UInt8 := charByte '\x7b' :: rest

/-- The member is no field of the type, and the skipper finds the end of the name. -/
structure HintPassed (P : MetaParser) (type : Nat) (name : Literal) : Prop where
  unknown : ∀ descriptor, metaGetDescriptor P.reg type = some descriptor →
    findField descriptor typeNameKey = none
  transparent : skipScan (some (0, 0)) (quoted name.body) = some (0, 0)

/-! ### The scan -/

section Scan

variable {P : MetaParser} {expected fuel : Nat} {s rest name text : List UInt8}

/-- **Where the skipper stops**: at the end of the text, or behind a character at which its counters let it. -/
theorem jsonSkipLoop_stop : ∀ {s : List UInt8} {brackets braces : Int},
    (jsonSkipLoop brackets braces s).2 = [] ∨ ∃ value counters stop,
      s = value ++ stop :: (jsonSkipLoop brackets braces s).2 ∧
        skipScan (some (brackets, braces)) value = some counters ∧ skipStep (some counters) stop = none
  | [], _, _ => Or.inl rfl
  | c :: s, brackets, braces => by
    cases stepped : skipStep (some (brackets, braces)) c with
    | some counters =>
      rw [jsonSkipLoop_step stepped]
      rcases jsonSkipLoop_stop (s := s) with ends | ⟨value, counters', stop, split, scanned, stops⟩
      · exact Or.inl ends
      · refine Or.inr ⟨c :: value, counters', stop, congrArg (c :: ·) split, ?_, stops⟩
        show skipScan (skipStep (some (brackets, braces)) c) value = _
        rw [stepped]
        exact scanned
    | none =>
      refine Or.inr ⟨[], (brackets, braces), c, ?_, rfl, stepped⟩
      rw [skipStep] at stepped
      rw [jsonSkipLoop]
      split_ifs at stepped ⊢ <;> rfl

theorem jsonSkipLoop_stops {brackets braces : Int} {stop : UInt8}
    (stops : skipStep (some (brackets, braces)) stop = none) :
    (jsonSkipLoop brackets braces (stop :: rest)).2 = rest := by
  rw [skipStep] at stops
  rw [jsonSkipLoop]
  split_ifs at stops ⊢ <;> rfl

/-- The skipper stops behind a value. -/
theorem jsonSkipValue_stop {value : List UInt8} {counters : Int × Int} {stop : UInt8}
    (scanned : skipScan (some (0, 0)) value = some counters) (stops : skipStep (some counters) stop = none) :
    (jsonSkipValue (value ++ stop :: rest)).2 = rest := by
  rw [jsonSkipValue, jsonSkipLoop_scan scanned]
  exact jsonSkipLoop_stops stops

theorem Blank.skip (blank : Blank text) : skipWhitespace (text ++ rest) = skipWhitespace rest :=
  skipWhitespace_gap ⟨text, blank⟩

theorem skipWhitespace_twice : skipWhitespace (skipWhitespace s) = skipWhitespace s :=
  List.dropWhile_idempotent isWhitespace s

/-- **A key of the grammar** is parsed, up to what comes behind its colon. -/
theorem KeySyntax.parsed (key : KeySyntax P name text) (rest : List UInt8) :
    ∃ k behind, parseKey P.unset (skipWhitespace (text ++ rest)) = (name, k) ∧
      expectChar (charByte ':') (skipWhitespace k) = some behind ∧
        skipWhitespace behind = skipWhitespace rest := by
  obtain ⟨before, key, between, behind, rfl, white, whiteKey, whiteColon, literal⟩ := key
  have colon : ∀ r, skipWhitespace (between ++ charByte ':' :: r) = charByte ':' :: r := fun r => by
    rw [whiteKey.skip]
    exact skipWhitespace_cons (by decide)
  have whole : skipWhitespace (before ++ (key ++ (between ++ charByte ':' :: behind)) ++ rest) =
      skipWhitespace (key ++ (between ++ charByte ':' :: (behind ++ rest))) := by
    rw [List.append_assoc, white.skip]
    simp only [List.append_assoc, List.cons_append]
  rw [whole]
  rcases literal with parsed | ⟨rfl, rfl⟩
  · obtain ⟨inner, opened, -⟩ := Option.bind_eq_some_iff.mp parsed
    have visible : skipWhitespace (key ++ (between ++ charByte ':' :: (behind ++ rest))) =
        key ++ (between ++ charByte ':' :: (behind ++ rest)) := by
      rw [expectChar_some opened]
      exact skipWhitespace_cons (by decide)
    refine ⟨between ++ charByte ':' :: (behind ++ rest), behind ++ rest, ?_, ?_, whiteColon.skip⟩
    · rw [visible, parseKey, parseJsonString_append parsed, List.nil_append, Option.getD_some]
    · rw [colon, expectChar_cons]
  · refine ⟨charByte ':' :: (behind ++ rest), behind ++ rest, ?_, ?_, whiteColon.skip⟩
    · rw [List.nil_append, colon, parseKey, parseJsonString, expectChar_ne (by decide)]
      rfl
    · rw [skipWhitespace_cons (by decide), expectChar_cons]

/-- A key is no closing brace, and not the end. -/
theorem KeySyntax.front (key : KeySyntax P name text) (rest : List UInt8) :
    expectChar (charByte '\x7d') (skipWhitespace (text ++ rest)) = none ∧
      (skipWhitespace (text ++ rest)).isEmpty = false ∧ rest.length < (text ++ rest).length := by
  obtain ⟨before, key, between, behind, rfl, white, whiteKey, -, literal⟩ := key
  have whole : skipWhitespace (before ++ (key ++ (between ++ charByte ':' :: behind)) ++ rest) =
      skipWhitespace (key ++ (between ++ charByte ':' :: (behind ++ rest))) := by
    rw [List.append_assoc, white.skip]
    simp only [List.append_assoc, List.cons_append]
  have longer : rest.length < (before ++ (key ++ (between ++ charByte ':' :: behind)) ++ rest).length := by
    simp only [List.length_append, List.length_cons]
    omega
  rw [whole]
  rcases literal with parsed | ⟨rfl, -⟩
  · obtain ⟨inner, opened, -⟩ := Option.bind_eq_some_iff.mp parsed
    have visible : skipWhitespace (key ++ (between ++ charByte ':' :: (behind ++ rest))) =
        charByte '"' :: (inner ++ (between ++ charByte ':' :: (behind ++ rest))) := by
      rw [expectChar_some opened]
      exact skipWhitespace_cons (by decide)
    rw [visible]
    exact ⟨expectChar_ne (by decide), rfl, longer⟩
  · rw [List.nil_append, whiteKey.skip, skipWhitespace_cons (by decide)]
    exact ⟨expectChar_ne (by decide), rfl, longer⟩

/-- Such a text does not start with a comma. -/
theorem TypeFound.noComma (found : TypeFound P expected s) :
    expectChar (charByte ',') (skipWhitespace s) = none := by
  have key : ∀ {name text rest}, KeySyntax P name text →
      expectChar (charByte ',') (skipWhitespace (text ++ rest)) = none := by
    intro name text rest key
    obtain ⟨k, behind, parsed, colon, -⟩ := key.parsed rest
    cases comma : expectChar (charByte ',') (skipWhitespace (text ++ rest)) with
    | none => rfl
    | some later =>
      rw [expectChar_some comma, parseKey, parseJsonString, expectChar_ne (by decide)] at parsed
      obtain ⟨-, rfl⟩ := Prod.mk.inj parsed
      rw [skipWhitespace_cons (by decide), expectChar_ne (by decide)] at colon
      cases colon
  cases found with
  | closed blank =>
    rw [blank.skip, skipWhitespace_cons (by decide)]
    exact expectChar_ne (by decide)
  | named syn => exact key syn
  | later syn => exact key syn

theorem namedType_ok {type : Nat} (some_ : expected ≠ 0) :
    namedType P expected name = .ok type ↔ metaGetId P.reg name = expected ∧ type = expected := by
  unfold namedType
  simp only
  split_ifs with zero mismatch
  · exact ⟨fun same => (by cases same), fun both => absurd (both.1.symm.trans zero) some_⟩
  · exact ⟨fun same => (by cases same), fun both => absurd both.1 mismatch.2⟩
  · rw [not_and_or, not_not, not_not] at mismatch
    have same := mismatch.resolve_left some_
    rw [same]
    exact ⟨fun ok => ⟨rfl, (Except.ok.inj ok).symm⟩, fun both => by rw [both.2]⟩

/-- White space does not stop the skipper. -/
theorem jsonSkipValue_blank : jsonSkipValue (skipWhitespace s) = jsonSkipValue s := by
  obtain ⟨blank, split, white⟩ := skipWhitespace_blank s
  have quiet : skipScan (some (0, 0)) blank = some (0, 0) := by
    have scan : skipScan (some (0, 0)) (blank ++ []) = some (0, 0) :=
      skipScan_quiet fun c member => isQuiet_whitespace (white c member)
    rwa [List.append_nil] at scan
  calc jsonSkipValue (skipWhitespace s) = jsonSkipValue (blank ++ skipWhitespace s) :=
        (jsonSkipLoop_scan quiet).symm
    _ = jsonSkipValue s := by rw [← split]

theorem objectTypeLoop_blank : objectTypeLoop P expected fuel (skipWhitespace s) =
    objectTypeLoop P expected fuel s := by
  cases fuel with
  | zero => rfl
  | succ fuel => rw [objectTypeLoop, objectTypeLoop, skipWhitespace_twice]

/-- **The scan succeeds** where the type is found. -/
theorem TypeFound.scanned (some_ : expected ≠ 0) (found : TypeFound P expected s) :
    ∀ fuel, s.length < fuel → objectTypeLoop P expected fuel s = some (.ok expected) := by
  induction found with
  | @closed blank rest white =>
    intro fuel enough
    obtain ⟨fuel, rfl⟩ := Nat.exists_eq_add_of_le' (Nat.one_le_of_lt enough)
    rw [objectTypeLoop, white.skip, skipWhitespace_cons (by decide), expectChar_cons]
    exact congrArg some (if_pos some_)
  | @named key rest syn named =>
    intro fuel enough
    obtain ⟨fuel, rfl⟩ := Nat.exists_eq_add_of_le' (Nat.one_le_of_lt enough)
    obtain ⟨k, behind, parsed, colon, same⟩ := syn.parsed rest
    obtain ⟨noBrace, nonempty, -⟩ := syn.front rest
    rw [objectTypeLoop]
    simp only [noBrace, nonempty, parsed, colon, same, Bool.false_eq_true, if_false, if_true]
    exact congrArg some ((namedType_ok some_).mpr ⟨named, rfl⟩)
  | @later name key value counters stop blank comma rest syn other scanned stops white optional later ih =>
    intro fuel enough
    obtain ⟨fuel, rfl⟩ := Nat.exists_eq_add_of_le' (Nat.one_le_of_lt enough)
    obtain ⟨k, behind, parsed, colon, same⟩ := syn.parsed (value ++ stop :: (blank ++ (comma ++ rest)))
    obtain ⟨noBrace, nonempty, -⟩ := syn.front (value ++ stop :: (blank ++ (comma ++ rest)))
    have shorter : rest.length < fuel := by
      simp only [List.length_append, List.length_cons] at enough
      omega
    rw [objectTypeLoop]
    simp only [noBrace, nonempty, parsed, colon, same, jsonSkipValue_blank, jsonSkipValue_stop scanned stops,
      white.skip, other, Bool.false_eq_true, if_false]
    rcases optional with rfl | rfl
    · rw [List.nil_append, later.noComma, Option.getD_none, objectTypeLoop_blank]
      exact ih fuel shorter
    · rw [List.singleton_append, skipWhitespace_cons (by decide), expectChar_cons, Option.getD_some]
      exact ih fuel shorter

/-- **Where the scan succeeds** the type is found. -/
theorem typeFound_of_scan {type : Nat} (some_ : expected ≠ 0) : ∀ {fuel : Nat} {s : List UInt8},
    objectTypeLoop P expected fuel s = some (.ok type) → TypeFound P expected s
  | 0, _, scanned => by cases scanned
  | fuel + 1, s, scanned => by
    rw [objectTypeLoop] at scanned
    split at scanned
    · next rest closed =>
      obtain ⟨blank, split, white⟩ := skipWhitespace_blank s
      rw [split, expectChar_some closed]
      exact .closed white
    · split at scanned
      · cases scanned
      · simp only at scanned
        split at scanned
        · cases scanned
        · next behind colon =>
          obtain ⟨text, split, key⟩ := parseKey_syntax colon
          rw [split]
          split at scanned
          · next named =>
            rw [named] at key
            refine .named key ?_
            rw [skipWhitespace_twice]
            exact ((namedType_ok some_).mp (Option.some.inj scanned)).1
          · next other =>
            have stop := @jsonSkipLoop_stop (skipWhitespace behind) 0 0
            rw [← jsonSkipValue] at stop
            generalize (jsonSkipValue (skipWhitespace behind)).2 = left at scanned stop
            rcases stop with rfl | ⟨value, counters, stop, inner, skips, stops⟩
            · -- nothing is left for a further member
              cases fuel <;> cases scanned
            · obtain ⟨blank, split, white⟩ := skipWhitespace_blank left
              rw [inner, split]
              cases separated : expectChar (charByte ',') (skipWhitespace left) with
              | none =>
                rw [separated, Option.getD_none] at scanned
                exact .later key other skips stops white (Or.inl rfl) (typeFound_of_scan some_ scanned)
              | some rest =>
                rw [separated, Option.getD_some] at scanned
                rw [expectChar_some separated]
                exact .later key other skips stops white (Or.inr rfl) (typeFound_of_scan some_ scanned)

theorem namedType_nonzero {type : Nat} (named : namedType P expected name = .ok type) : type ≠ 0 := by
  unfold namedType at named
  simp only at named
  split_ifs at named with zero
  rw [← Except.ok.inj named]
  exact zero

/-- **The scan succeeds exactly on these texts.** -/
theorem objectTypeLoop_found_iff {type : Nat} (some_ : expected ≠ 0) (enough : s.length < fuel) :
    objectTypeLoop P expected fuel s = some (.ok type) ↔ TypeFound P expected s ∧ type = expected := by
  constructor
  · intro scanned
    have found := typeFound_of_scan some_ scanned
    rw [found.scanned some_ fuel enough] at scanned
    exact ⟨found, (Except.ok.inj (Option.some.inj scanned)).symm⟩
  · rintro ⟨found, rfl⟩
    exact found.scanned some_ fuel enough

end Scan

/-! ### Taking the hint away -/

section Hint

variable {P : MetaParser} {expected : Nat} {heap : BlockHeap} {key name : Literal} {rest : List UInt8}
  {parsed : MetaParsed}

/-- Objects are parsed alike with every fuel above the length of their text. -/
theorem parseJsonObject_fuel (floats : P.floats.Advances) {fuel fuel' : Nat} {heap : BlockHeap}
    {s : List UInt8} {type object : Nat} (enough : s.length < fuel) (enough' : s.length < fuel') :
    parseJsonObject P fuel heap s type object = parseJsonObject P fuel' heap s type object := by
  rw [← parseJsonObjectWith_unset P fuel, ← parseJsonObjectWith_unset P fuel']
  exact parseJsonObjectWith_fuel floats heap s type object enough enough'

/-- The skipper passes over a transparent name. -/
theorem HintPassed.skipped {type : Nat} (passed : HintPassed P type name) :
    jsonSkipValue (skipWhitespace (quoted name.body ++ charByte ',' :: rest)) = (true, rest) := by
  rw [skipWhitespace_quoted, jsonSkipValue, jsonSkipLoop_scan passed.transparent]
  rfl

/-- The key in front of its colon. -/
theorem parseKey_hinted (typed : key.content = typeNameKey) (unset rest : List UInt8) :
    parseKey unset (skipWhitespace (quoted key.body ++ charByte ':' :: rest)) =
      (typeNameKey, charByte ':' :: rest) := by
  rw [skipWhitespace_quoted, parseKey, key.parseJsonString, typed, Option.getD_some]

theorem expectChar_colon (rest : List UInt8) :
    expectChar (charByte ':') (skipWhitespace (charByte ':' :: rest)) = some rest := by
  rw [skipWhitespace_cons (by decide), expectChar_cons]

/-- **The type-name member is passed over.** -/
theorem parseJsonObject_hinted (floats : P.floats.Advances) (typed : key.content = typeNameKey) {type : Nat}
    (passed : HintPassed P type name) {fuel object : Nat} {heap : BlockHeap}
    (enough : (hintedText key name rest).length < fuel) :
    parseJsonObject P fuel heap (hintedText key name rest) type object =
      parseJsonObject P ((unhintedText rest).length + 1) heap (unhintedText rest) type object := by
  obtain ⟨fuel, rfl⟩ := Nat.exists_eq_add_of_le' (Nat.one_le_of_lt enough)
  cases found : metaGetDescriptor P.reg type with
  | none => rw [parseJsonObject, parseJsonObject, found]
  | some descriptor =>
    let tail := quoted key.body ++ charByte ':' :: (quoted name.body ++ charByte ',' :: rest)
    have hinted : skipWhitespace (hintedText key name rest) = charByte '\x7b' :: tail :=
      skipWhitespace_cons (by decide)
    have unhinted : skipWhitespace (unhintedText rest) = charByte '\x7b' :: rest :=
      skipWhitespace_cons (by decide)
    have lengths : rest.length < tail.length ∧ tail.length < fuel := by
      simp only [hintedText, tail, List.length_cons, List.length_append] at enough ⊢
      omega
    rw [parseJsonObject_members found hinted, parseJsonObject_members found unhinted, parseMembers]
    simp only [tail, parseKey_hinted typed, expectChar_colon, passed.unknown descriptor found, passed.skipped]
    -- the members behind it, with other amounts of fuel
    rw [← parseMembersWith_unset, ← parseMembersWith_unset]
    refine parseMembersWith_agree floats ?_ (fun heap' s' type' object' short => ?_) heap rest (Nat.le_refl _)
      lengths.1 (Nat.lt_succ_self _)
    · rw [← parseJsonObjectWith_unset P fuel]
      exact parseJsonObjectWith_advances floats fuel
    · exact parseJsonObject_fuel floats (by omega) (Nat.lt_succ_of_le short)

/-- The scan of the text with the member. -/
theorem jsonGetObjectType_hinted (typed : key.content = typeNameKey) :
    jsonGetObjectType P expected (hintedText key name rest) = some (namedType P expected name.content) := by
  have brace : skipWhitespace (hintedText key name rest) = hintedText key name rest :=
    skipWhitespace_cons (by decide)
  have front : skipWhitespace (quoted key.body ++ charByte ':' :: (quoted name.body ++ charByte ',' :: rest)) =
      charByte '"' :: (key.body ++ charByte '"' ::
        (charByte ':' :: (quoted name.body ++ charByte ',' :: rest))) := by
    rw [skipWhitespace_quoted, quoted_append]
  have noBrace : expectChar (charByte '\x7d') (skipWhitespace (quoted key.body ++ charByte ':' ::
      (quoted name.body ++ charByte ',' :: rest))) = none := by
    rw [front]
    exact expectChar_ne (by decide)
  have nonempty : (skipWhitespace (quoted key.body ++ charByte ':' ::
      (quoted name.body ++ charByte ',' :: rest))).isEmpty = false := by
    rw [front]
    rfl
  rw [jsonGetObjectType, brace, hintedText, expectChar_cons]
  simp only [objectTypeLoop, noBrace, nonempty, parseKey_hinted typed, expectChar_colon, Bool.false_eq_true,
    if_false, if_true]
  rw [skipWhitespace_quoted, parseKey, name.parseJsonString, Option.getD_some]

theorem jsonGetObjectType_unhinted_iff (some_ : expected ≠ 0) {type : Nat} :
    jsonGetObjectType P expected (unhintedText rest) = some (.ok type) ↔
      TypeFound P expected rest ∧ type = expected := by
  have brace : skipWhitespace (unhintedText rest) = unhintedText rest := skipWhitespace_cons (by decide)
  rw [jsonGetObjectType, brace, unhintedText, expectChar_cons]
  exact objectTypeLoop_found_iff some_ (Nat.lt_succ_self _)

/-- **An expected type and the hint**: without the type-name member, an accepted text is accepted only if the
expected type is found in what is left. There it gives the same result, if the parser passes over the
member. -/
theorem metaParseJson_unhinted (floats : P.floats.Advances) (typed : key.content = typeNameKey)
    (accepted : metaParseJson P expected heap (hintedText key name rest) = some parsed)
    (success : parsed.ret = 0) (type : parsed.type = some expected) :
    ((∃ parsed', metaParseJson P expected heap (unhintedText rest) = some parsed' ∧ parsed'.ret = 0) →
        TypeFound P expected rest) ∧
      (TypeFound P expected rest ∧ HintPassed P expected name →
        metaParseJson P expected heap (unhintedText rest) = some parsed) := by
  unfold metaParseJson at accepted
  rw [jsonGetObjectType_hinted typed] at accepted
  cases named : namedType P expected name.content with
  | error code =>
    rw [named] at accepted
    cases accepted
    cases type
  | ok id =>
    rw [named, Option.bind_some] at accepted
    have some_ : id ≠ 0 := namedType_nonzero named
    obtain ⟨rfl, descriptor, granted, found, alloc, result, parses, rfl⟩ : id = expected ∧ ∃ descriptor granted,
        metaGetDescriptor P.reg id = some descriptor ∧ P.alloc.alloc heap descriptor.size = some granted ∧
          ∃ result, parseJsonObject P ((hintedText key name rest).length + 1)
            (zeroedBlock granted descriptor.size) (hintedText key name rest) id granted.2 = some result ∧
              parsed = ⟨result.1, resultCode result.2, some granted.2, some id⟩ := by
      simp only at accepted
      cases found : metaGetDescriptor P.reg id with
      | none =>
        rw [found] at accepted
        cases accepted
        cases type
      | some descriptor =>
        rw [found] at accepted
        obtain ⟨granted, alloc, ran⟩ := Option.bind_eq_some_iff.mp accepted
        obtain ⟨result, parses, rfl⟩ := Option.map_eq_some_iff.mp ran
        exact ⟨Option.some.inj type, descriptor, granted, rfl, alloc, result, parses, rfl⟩
    refine ⟨?_, fun both => ?_⟩
    · rintro ⟨parsed', ran, success'⟩
      unfold metaParseJson at ran
      cases scanned : jsonGetObjectType P id (unhintedText rest) with
      | none =>
        rw [scanned] at ran
        cases ran
      | some outcome =>
        rw [scanned, Option.bind_some] at ran
        cases outcome with
        | error code =>
          cases ran
          exact absurd success' (jsonGetObjectType_negative scanned).ne
        | ok other => exact ((jsonGetObjectType_unhinted_iff some_).mp scanned).1
    · have scanned := (jsonGetObjectType_unhinted_iff (P := P) some_).mpr ⟨both.1, rfl⟩
      rw [parseJsonObject_hinted floats typed both.2 (Nat.lt_succ_self _)] at parses
      unfold metaParseJson
      rw [scanned, Option.bind_some]
      simp only [found]
      rw [alloc, Option.bind_some]
      exact Option.map_eq_some_iff.mpr ⟨result, parses, rfl⟩

end Hint

/-! ### A point -/

def pointTypes : List MetaDescriptor :=
  [defaultPrimitive "int32_t" 4 .i32,
   ⟨ascii "Point", .object, 4, 0, .i8, [⟨ascii "x", 1, 0, 0, 0, none⟩], .cstring⟩]

def pointParser : MetaParser :=
  ⟨64, markFloats, (metaRegisterAll (metaEmpty (.default .bump)) pointTypes).1, .bump, []⟩

def pointLiteral : Literal := ⟨ascii "Point", ascii "Point", by decide +kernel⟩

/-- The point with the type-name member. -/
def pointText : List UInt8 := hintedText typeNameLiteral pointLiteral (ascii "\"x\":1\x7d")

/-- It is accepted as a point. -/
theorem pointText_accepted : ∃ parsed, metaParseJson pointParser 2 ⟨fun _ => 0, []⟩ pointText = some parsed ∧
    parsed.ret = 0 ∧ parsed.type = some 2 := by
  have codes : (metaParseJson pointParser 2 ⟨fun _ => 0, []⟩ pointText).map
      (fun parsed => (parsed.ret, parsed.type)) = some (0, some 2) := by decide +kernel
  obtain ⟨parsed, ran, same⟩ := Option.map_eq_some_iff.mp codes
  obtain ⟨ret, type⟩ := Prod.mk.inj same
  exact ⟨parsed, ran, ret, type⟩

/-- What holds of the point without the member. -/
theorem metaParseJson_unhinted_point : ∃ parsed,
    metaParseJson pointParser 2 ⟨fun _ => 0, []⟩ pointText = some parsed ∧
    ((∃ parsed', metaParseJson pointParser 2 ⟨fun _ => 0, []⟩ (unhintedText (ascii "\"x\":1\x7d")) =
          some parsed' ∧ parsed'.ret = 0) → TypeFound pointParser 2 (ascii "\"x\":1\x7d")) ∧
      (TypeFound pointParser 2 (ascii "\"x\":1\x7d") ∧ HintPassed pointParser 2 pointLiteral →
        metaParseJson pointParser 2 ⟨fun _ => 0, []⟩ (unhintedText (ascii "\"x\":1\x7d")) = some parsed) := by
  obtain ⟨parsed, ran, success, type⟩ := pointText_accepted
  exact ⟨parsed, ran, metaParseJson_unhinted markFloats_readsTokens.advances rfl ran success type⟩

/-- **Without the hint the expected type is not enough**: a point is accepted with its type name, and refused
without. -/
theorem expected_type_refused :
    (∃ parsed, metaParseJson pointParser 2 ⟨fun _ => 0, []⟩ pointText = some parsed ∧ parsed.ret = 0 ∧
        parsed.type = some 2) ∧
      (metaParseJson pointParser 2 ⟨fun _ => 0, []⟩ (unhintedText (ascii "\"x\":1\x7d"))).map (·.ret) =
        some metaInvalidJson :=
  ⟨pointText_accepted, by decide +kernel⟩

end Vaudou
