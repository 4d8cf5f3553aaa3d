/-
**JSON documents with their layout.**

`Json` is the tree of a JSON value together with the white space at every place between two tokens, and
`Json.text` its bytes. A scalar is any word without space and punctuation, a string any body that the
parser reads up to its closing quote.

* `Json.erase` — the document without white space: two layouts of the same tokens have the same erasure.
* `Json.Transparent` — the skipper finds the end of the value: its counters are back where they were.
  That does not depend on the layout (`Json.transparent_erase`), and punctuation in strings is all that
  stands against it (`Json.PlainStrings.transparent`).
-/

import Vaudou.Meta.Tokens

namespace Vaudou

open Vaudou.Text

/-! ### Tokens -/

/-- White space between two tokens. -/
structure Gap where
  bytes : List UInt8
  blank : ∀ c ∈ bytes, isWhitespace c = true

/-- No white space. -/
def Gap.empty : Gap := ⟨[], fun _ member => absurd member List.not_mem_nil⟩

/-- A byte of a number or of a word. -/
def isScalarByte (c : UInt8) : Bool :=
  !isSpace c && c != 0 && c != charByte ',' && c != charByte ':' && c != charByte '"' &&
    c != charByte '[' && c != charByte ']' && c != charByte '\x7b' && c != charByte '\x7d'

/-- A number or a word. -/
structure Scalar where
  bytes : List UInt8
  nonempty : bytes ≠ []
  plain : ∀ c ∈ bytes, isScalarByte c = true

/-- A string: what stands between its quotes, and what the parser reads it as. -/
structure Literal where
  body : List UInt8
  content : List UInt8
  closed : parseJsonString (quoted body) = some (content, [])

/-- A key with its colon. -/
structure JsonKey where
  name : Literal
  behind : Gap
  before : Gap

/-! ### Trees -/

mutual

/-- A JSON value. -/
inductive Json where
  | scalar (token : Scalar)
  | string (token : Literal)
  | emptyArray (inside : Gap)
  | array (before : Gap) (items : JsonItems)
  | emptyObject (inside : Gap)
  | object (before : Gap) (members : JsonMembers)

/-- The elements of an array, with the white space behind each and before the next. -/
inductive JsonItems where
  | last (value : Json) (behind : Gap)
  | more (value : Json) (behind before : Gap) (rest : JsonItems)

/-- The members of an object, with the white space behind each and before the next. -/
inductive JsonMembers where
  | last (key : JsonKey) (value : Json) (behind : Gap)
  | more (key : JsonKey) (value : Json) (behind before : Gap) (rest : JsonMembers)

end

/-- Induction on the members of an object. -/
theorem JsonMembers.inductionOn {motive : JsonMembers → Prop} (members : JsonMembers)
    (last : ∀ key value behind, motive (.last key value behind))
    (more : ∀ key value behind before members, motive members →
      motive (.more key value behind before members)) :
    motive members :=
  @JsonMembers.rec (fun _ => True) (fun _ => True) motive (fun _ => trivial) (fun _ => trivial)
    (fun _ => trivial) (fun _ _ _ => trivial) (fun _ => trivial) (fun _ _ _ => trivial)
      (fun _ _ _ => trivial)
    (fun _ _ _ _ _ _ => trivial) (fun key value behind _ => last key value behind)
    (fun key value behind before members _ => more key value behind before members) members

/-- A text that is a JSON value. -/
structure JsonDocument where
  before : Gap
  value : Json
  behind : Gap

/-- The key in front of what comes behind it. -/
def JsonKey.textThen (key : JsonKey) (rest : List UInt8) : List UInt8 :=
  quoted key.name.body ++ (key.behind.bytes ++ charByte ':' :: (key.before.bytes ++ rest))

mutual

/-- The value in front of what comes behind it. -/
def Json.textThen : Json → (rest : List UInt8) → List UInt8
  | .scalar token, rest => token.bytes ++ rest
  | .string token, rest => quoted token.body ++ rest
  | .emptyArray inside, rest => charByte '[' :: (inside.bytes ++ charByte ']' :: rest)
  | .array before items, rest => charByte '[' :: (before.bytes ++ items.textThen rest)
  | .emptyObject inside, rest => charByte '\x7b' :: (inside.bytes ++ charByte '\x7d' :: rest)
  | .object before members, rest => charByte '\x7b' :: (before.bytes ++ members.textThen rest)

/-- The elements and the closing bracket. -/
def JsonItems.textThen : JsonItems → (rest : List UInt8) → List UInt8
  | .last value behind, rest => value.textThen (behind.bytes ++ charByte ']' :: rest)
  | .more value behind before items, rest =>
    value.textThen (behind.bytes ++ charByte ',' :: (before.bytes ++ items.textThen rest))

/-- The members and the closing brace. -/
def JsonMembers.textThen : JsonMembers → (rest : List UInt8) → List UInt8
  | .last key value behind, rest =>
    key.textThen (value.textThen (behind.bytes ++ charByte '\x7d' :: rest))
  | .more key value behind before members, rest =>
    key.textThen (value.textThen (behind.bytes ++ charByte ',' ::
      (before.bytes ++ members.textThen rest)))

end

/-- The text of a document. -/
def JsonDocument.text (doc : JsonDocument) : List UInt8 :=
  doc.before.bytes ++ doc.value.textThen doc.behind.bytes

/-! ### Texts -/

section Texts

variable {s rest : List UInt8}

theorem JsonKey.textThen_append (key : JsonKey) :
    key.textThen (s ++ rest) = key.textThen s ++ rest := by
  simp only [JsonKey.textThen, List.append_assoc, List.cons_append]

mutual

/-- What comes behind a value is no part of its text. -/
theorem Json.textThen_append {s rest : List UInt8} :
    ∀ value : Json, value.textThen (s ++ rest) = value.textThen s ++ rest
  | .scalar token => by simp only [Json.textThen, List.append_assoc]
  | .string token => by simp only [Json.textThen, List.append_assoc]
  | .emptyArray inside => by simp only [Json.textThen, List.append_assoc, List.cons_append]
  | .array before items => by
    simp only [Json.textThen, items.textThen_append, List.append_assoc, List.cons_append]
  | .emptyObject inside => by simp only [Json.textThen, List.append_assoc, List.cons_append]
  | .object before members => by
    simp only [Json.textThen, members.textThen_append, List.append_assoc, List.cons_append]

theorem JsonItems.textThen_append {s rest : List UInt8} :
    ∀ items : JsonItems, items.textThen (s ++ rest) = items.textThen s ++ rest
  | .last value behind => by
    rw [JsonItems.textThen, JsonItems.textThen, ← value.textThen_append, List.append_assoc,
      List.cons_append]
  | .more value behind before items => by
    rw [JsonItems.textThen, JsonItems.textThen, ← value.textThen_append, items.textThen_append]
    simp only [List.append_assoc, List.cons_append]

theorem JsonMembers.textThen_append {s rest : List UInt8} :
    ∀ members : JsonMembers, members.textThen (s ++ rest) = members.textThen s ++ rest
  | .last key value behind => by
    rw [JsonMembers.textThen, JsonMembers.textThen, ← key.textThen_append, ← value.textThen_append,
      List.append_assoc, List.cons_append]
  | .more key value behind before members => by
    rw [JsonMembers.textThen, JsonMembers.textThen, ← key.textThen_append, ← value.textThen_append,
      members.textThen_append]
    simp only [List.append_assoc, List.cons_append]

end

theorem JsonKey.length_textThen (key : JsonKey) : rest.length < (key.textThen rest).length := by
  simp only [JsonKey.textThen, List.length_append, List.length_cons]
  omega

theorem Json.length_textThen (value : Json) : rest.length ≤ (value.textThen rest).length := by
  rw [← List.nil_append rest, value.textThen_append, List.length_append, List.length_append]
  exact Nat.add_le_add_right (Nat.zero_le _) _

end Texts

/-! ### Layouts -/

/-- The key without white space. -/
def JsonKey.erase (key : JsonKey) : JsonKey := ⟨key.name, .empty, .empty⟩

mutual

/-- **The value without white space.** -/
def Json.erase : Json → Json
  | .scalar token => .scalar token
  | .string token => .string token
  | .emptyArray _ => .emptyArray .empty
  | .array _ items => .array .empty items.erase
  | .emptyObject _ => .emptyObject .empty
  | .object _ members => .object .empty members.erase

/-- The elements without white space. -/
def JsonItems.erase : JsonItems → JsonItems
  | .last value _ => .last value.erase .empty
  | .more value _ _ items => .more value.erase .empty .empty items.erase

/-- The members without white space. -/
def JsonMembers.erase : JsonMembers → JsonMembers
  | .last key value _ => .last key.erase value.erase .empty
  | .more key value _ _ members => .more key.erase value.erase .empty .empty members.erase

end

/-- The document without white space: its minified text. -/
def JsonDocument.erase (doc : JsonDocument) : JsonDocument := ⟨.empty, doc.value.erase, .empty⟩

/-! ### Skipping -/

/-- The counters of `vd_meta__json_skip_value` behind a character; `none` where it stops. -/
def skipStep : Option (Int × Int) → UInt8 → Option (Int × Int)
  | none, _ => none
  | some (brackets, braces), c =>
    if c = 0 then none
    else if c = charByte '[' then some (brackets + 1, braces)
    else if c = charByte ']' then some (brackets - 1, braces)
    else if c = charByte '\x7b' then some (brackets, braces + 1)
    else if c = charByte '\x7d' then some (brackets, braces - 1)
    else if c = charByte ',' ∧ brackets = 0 ∧ braces = 0 then none
    else some (brackets, braces)

/-- The counters behind a text. -/
def skipScan (counters : Option (Int × Int)) (s : List UInt8) : Option (Int × Int) :=
  s.foldl skipStep counters

/-- **The skipper finds the end of the value.** -/
def Json.Transparent (value : Json) : Prop := skipScan (some (0, 0)) (value.textThen []) = some (0, 0)

section Skipping

variable {s rest : List UInt8} {brackets braces brackets' braces' : Int} {counters : Option (Int × Int)}

theorem skipScan_append : skipScan counters (s ++ rest) = skipScan (skipScan counters s) rest :=
  List.foldl_append

theorem skipScan_none : ∀ {s : List UInt8}, skipScan none s = none
  | [] => rfl
  | _ :: s => skipScan_none (s := s)

/-- The loop goes on behind a character that it does not stop at. -/
theorem jsonSkipLoop_step {c : UInt8}
    (stepped : skipStep (some (brackets, braces)) c = some (brackets', braces')) :
    jsonSkipLoop brackets braces (c :: rest) = jsonSkipLoop brackets' braces' rest := by
  rw [skipStep] at stepped
  rw [jsonSkipLoop]
  split_ifs at stepped ⊢ <;>
  · obtain ⟨rfl, rfl⟩ := Prod.mk.inj (Option.some.inj stepped)
    rfl

/-- **The loop goes on behind a text that it does not stop in.** -/
theorem jsonSkipLoop_scan : ∀ {s : List UInt8} {brackets braces : Int},
    skipScan (some (brackets, braces)) s = some (brackets', braces') →
      jsonSkipLoop brackets braces (s ++ rest) = jsonSkipLoop brackets' braces' rest
  | [], _, _, scanned => by
    obtain ⟨rfl, rfl⟩ := Prod.mk.inj (Option.some.inj scanned)
    rfl
  | c :: s, brackets, braces, scanned => by
    change skipScan (skipStep (some (brackets, braces)) c) s = _ at scanned
    cases stepped : skipStep (some (brackets, braces)) c with
    | none =>
      rw [stepped, skipScan_none] at scanned
      cases scanned
    | some counters =>
      rw [stepped] at scanned
      rw [List.cons_append, jsonSkipLoop_step stepped]
      exact jsonSkipLoop_scan scanned

/-- A byte that is no punctuation and not 0 leaves the counters. -/
def isQuiet (c : UInt8) : Bool :=
  c != 0 && c != charByte '[' && c != charByte ']' && c != charByte '\x7b' && c != charByte '\x7d' &&
    c != charByte ','

theorem skipStep_quiet {c : UInt8} (quiet : isQuiet c = true) :
    ∀ {counters : Option (Int × Int)}, skipStep counters c = counters
  | none => rfl
  | some (brackets, braces) => by
    simp only [isQuiet, Bool.and_eq_true, bne_iff_ne] at quiet
    obtain ⟨⟨⟨⟨⟨zero, bracket⟩, close⟩, brace⟩, closeBrace⟩, comma⟩ := quiet
    rw [skipStep, if_neg zero, if_neg bracket, if_neg close, if_neg brace, if_neg closeBrace,
      if_neg fun both => comma both.1]

theorem skipScan_quiet : ∀ {s : List UInt8}, (∀ c ∈ s, isQuiet c = true) →
    skipScan counters (s ++ rest) = skipScan counters rest
  | [], _ => rfl
  | c :: s, quiet => by
    show skipScan (skipStep counters c) (s ++ rest) = _
    rw [skipStep_quiet (quiet c List.mem_cons_self)]
    exact skipScan_quiet fun d member => quiet d (List.mem_cons_of_mem c member)

theorem isQuiet_whitespace {c : UInt8} (blank : isWhitespace c = true) : isQuiet c = true := by
  simp only [isWhitespace, Bool.or_eq_true, beq_iff_eq] at blank
  rcases blank with ((rfl | rfl) | rfl) | rfl <;> rfl

theorem isQuiet_scalar {c : UInt8} (scalar : isScalarByte c = true) : isQuiet c = true := by
  simp only [isScalarByte, Bool.and_eq_true] at scalar
  simp only [isQuiet, scalar, Bool.and_self]

theorem skipScan_gap (gap : Gap) : skipScan counters (gap.bytes ++ rest) = skipScan counters rest :=
  skipScan_quiet fun c member => isQuiet_whitespace (gap.blank c member)

/-- The two texts move the counters in the same way. -/
def SkipsAlike (s s' : List UInt8) : Prop := ∀ counters, skipScan counters s = skipScan counters s'

theorem SkipsAlike.cons {s s' : List UInt8} (c : UInt8) (alike : SkipsAlike s s') :
    SkipsAlike (c :: s) (c :: s') :=
  fun _ => alike _

theorem SkipsAlike.append {s s' : List UInt8} (front : List UInt8) (alike : SkipsAlike s s') :
    SkipsAlike (front ++ s) (front ++ s') := by
  intro counters
  rw [skipScan_append, skipScan_append, alike]

theorem SkipsAlike.gap {s s' : List UInt8} (gap gap' : Gap) (alike : SkipsAlike s s') :
    SkipsAlike (gap.bytes ++ s) (gap'.bytes ++ s') := by
  intro counters
  rw [skipScan_gap, skipScan_gap, alike]

theorem JsonKey.skipsAlike {s s' : List UInt8} (key : JsonKey) (alike : SkipsAlike s s') :
    SkipsAlike (key.textThen s) (key.erase.textThen s') :=
  .append _ (.gap _ _ (.cons _ (.gap _ _ alike)))

mutual

/-- **White space does not move the counters.** -/
theorem Json.skipsAlike {s s' : List UInt8} (alike : SkipsAlike s s') :
    ∀ value : Json, SkipsAlike (value.textThen s) (value.erase.textThen s')
  | .scalar _ => .append _ alike
  | .string _ => .append _ alike
  | .emptyArray inside => .cons _ (.gap inside .empty (.cons _ alike))
  | .array before items => .cons _ (.gap before .empty (items.skipsAlike alike))
  | .emptyObject inside => .cons _ (.gap inside .empty (.cons _ alike))
  | .object before members => .cons _ (.gap before .empty (members.skipsAlike alike))

theorem JsonItems.skipsAlike {s s' : List UInt8} (alike : SkipsAlike s s') :
    ∀ items : JsonItems, SkipsAlike (items.textThen s) (items.erase.textThen s')
  | .last value behind => value.skipsAlike (.gap behind .empty (.cons _ alike))
  | .more value behind before items =>
    value.skipsAlike (.gap behind .empty (.cons _ (.gap before .empty (items.skipsAlike alike))))

theorem JsonMembers.skipsAlike {s s' : List UInt8} (alike : SkipsAlike s s') :
    ∀ members : JsonMembers, SkipsAlike (members.textThen s) (members.erase.textThen s')
  | .last key value behind => key.skipsAlike (value.skipsAlike (.gap behind .empty (.cons _ alike)))
  | .more key value behind before members =>
    key.skipsAlike (value.skipsAlike
      (.gap behind .empty (.cons _ (.gap before .empty (members.skipsAlike alike)))))

end

/-- **The skipper passes a transparent value** up to its comma. -/
theorem Json.Transparent.skipped {value : Json} (transparent : value.Transparent) (behind : Gap) :
    jsonSkipValue (value.textThen (behind.bytes ++ charByte ',' :: rest)) = (true, rest) := by
  have gap : skipScan (some (0, 0)) behind.bytes = some (0, 0) := by
    rw [← List.append_nil behind.bytes, skipScan_gap]
    rfl
  rw [jsonSkipValue, ← List.nil_append (behind.bytes ++ _), value.textThen_append,
    jsonSkipLoop_scan transparent, jsonSkipLoop_scan gap]
  rfl

/-- **Behind the last value the skipper runs out of text**: the closing brace is no comma. -/
theorem Json.Transparent.runsOut {value : Json} (transparent : value.Transparent) (behind last : Gap) :
    jsonSkipValue (value.textThen (behind.bytes ++ charByte '\x7d' :: last.bytes)) = (false, []) := by
  have closed : skipScan (some (0, 0)) (behind.bytes ++ charByte '\x7d' :: last.bytes) = some
    (0, -1) := by
    rw [skipScan_gap]
    show skipScan (some (0, -1)) last.bytes = _
    rw [← List.append_nil last.bytes, skipScan_gap]
    rfl
  rw [jsonSkipValue, ← List.nil_append (behind.bytes ++ _), value.textThen_append,
    jsonSkipLoop_scan transparent, ← List.append_nil (behind.bytes ++ _), jsonSkipLoop_scan closed]
  rfl

/-- **Transparency does not depend on the layout.** -/
theorem Json.transparent_erase (value : Json) : value.erase.Transparent ↔ value.Transparent := by
  have alike : SkipsAlike (value.textThen []) (value.erase.textThen []) := value.skipsAlike fun _ => rfl
  unfold Json.Transparent
  rw [alike]

end Skipping

/-! ### Plain strings -/

/-- A string without punctuation. -/
def Literal.Plain (token : Literal) : Prop := ∀ c ∈ token.body, isQuiet c = true

mutual

/-- Every string of the value is without punctuation. -/
def Json.PlainStrings : Json → Prop
  | .scalar _ => True
  | .string token => token.Plain
  | .emptyArray _ => True
  | .array _ items => items.PlainStrings
  | .emptyObject _ => True
  | .object _ members => members.PlainStrings

/-- Every string of the elements is without punctuation. -/
def JsonItems.PlainStrings : JsonItems → Prop
  | .last value _ => value.PlainStrings
  | .more value _ _ items => value.PlainStrings ∧ items.PlainStrings

/-- Every key and string of the members is without punctuation. -/
def JsonMembers.PlainStrings : JsonMembers → Prop
  | .last key value _ => key.name.Plain ∧ value.PlainStrings
  | .more key value _ _ members => key.name.Plain ∧ value.PlainStrings ∧ members.PlainStrings

end

section Plain

variable {rest : List UInt8} {brackets braces : Int}

theorem Literal.Plain.skipScan {token : Literal} (plain : token.Plain) {counters : Option (Int × Int)} :
    skipScan counters (quoted token.body ++ rest) = skipScan counters rest := by
  refine skipScan_quiet fun c member => ?_
  rcases List.mem_cons.mp member with rfl | member
  · rfl
  · rcases List.mem_append.mp member with inside | last
    · exact plain c inside
    · rw [List.mem_singleton.mp last]
      rfl

theorem JsonKey.skipScan {key : JsonKey} (plain : key.name.Plain) {counters : Option (Int × Int)} :
    skipScan counters (key.textThen rest) = skipScan counters rest := by
  have colon : ∀ {s : List UInt8}, Vaudou.skipScan counters
    (charByte ':' :: s) = Vaudou.skipScan counters s :=
    skipScan_quiet (s := [charByte ':']) fun c member => List.mem_singleton.mp member ▸ rfl
  rw [textThen, plain.skipScan, skipScan_gap, colon, skipScan_gap]

/-- A comma inside of brackets or braces leaves the counters. -/
theorem skipScan_comma (inside : ¬ (brackets = 0 ∧ braces = 0)) :
    skipScan (some (brackets, braces)) (charByte ',' :: rest) = skipScan
      (some (brackets, braces)) rest := by
  have stepped : skipStep (some (brackets, braces)) (charByte ',') = some (brackets, braces) := by
    rw [skipStep, if_neg (by decide), if_neg (by decide), if_neg (by decide), if_neg (by decide),
      if_neg (by decide), if_neg fun both => inside both.2]
  show skipScan (skipStep _ _) rest = _
  rw [stepped]

theorem skipScan_open : skipScan (some (brackets, braces)) (charByte '[' :: rest) =
    skipScan (some (brackets + 1, braces)) rest := rfl

theorem skipScan_close : skipScan (some (brackets + 1, braces)) (charByte ']' :: rest) =
    skipScan (some (brackets, braces)) rest := by
  show skipScan (some (brackets + 1 - 1, braces)) rest = _
  rw [add_sub_cancel_right]

theorem skipScan_openBrace : skipScan (some (brackets, braces)) (charByte '\x7b' :: rest) =
    skipScan (some (brackets, braces + 1)) rest := rfl

theorem skipScan_closeBrace : skipScan (some (brackets, braces + 1)) (charByte '\x7d' :: rest) =
    skipScan (some (brackets, braces)) rest := by
  show skipScan (some (brackets, braces + 1 - 1)) rest = _
  rw [add_sub_cancel_right]

mutual

/-- A value with plain strings leaves the counters, at any depth. -/
theorem Json.PlainStrings.skipScan {brackets braces : Int} {rest : List UInt8} (low : 0 ≤ brackets)
    (lowBraces : 0 ≤ braces) :
    ∀ {value : Json}, value.PlainStrings → Vaudou.skipScan (some (brackets, braces))
      (value.textThen rest) =
      Vaudou.skipScan (some (brackets, braces)) rest
  | .scalar token, _ => skipScan_quiet fun c member => isQuiet_scalar (token.plain c member)
  | .string _, plain => Literal.Plain.skipScan plain
  | .emptyArray inside, _ => by
    rw [Json.textThen, skipScan_open, skipScan_gap, skipScan_close]
  | .array before items, plain => by
    rw [Json.textThen, skipScan_open, skipScan_gap]
    exact JsonItems.PlainStrings.skipScan low lowBraces plain
  | .emptyObject inside, _ => by
    rw [Json.textThen, skipScan_openBrace, skipScan_gap, skipScan_closeBrace]
  | .object before members, plain => by
    rw [Json.textThen, skipScan_openBrace, skipScan_gap]
    exact JsonMembers.PlainStrings.skipScan low lowBraces plain

theorem JsonItems.PlainStrings.skipScan {brackets braces : Int} {rest : List UInt8}
    (low : 0 ≤ brackets) (lowBraces : 0 ≤ braces) : ∀ {items : JsonItems}, items.PlainStrings →
      Vaudou.skipScan (some (brackets + 1, braces)) (items.textThen rest) =
        Vaudou.skipScan (some (brackets, braces)) rest
  | .last value behind, plain => by
    rw [JsonItems.textThen, Json.PlainStrings.skipScan (by omega) lowBraces plain, skipScan_gap,
      skipScan_close]
  | .more value behind before items, plain => by
    rw [JsonItems.textThen, Json.PlainStrings.skipScan (by omega) lowBraces plain.1, skipScan_gap,
      skipScan_comma (by omega), skipScan_gap]
    exact JsonItems.PlainStrings.skipScan low lowBraces plain.2

theorem JsonMembers.PlainStrings.skipScan {brackets braces : Int} {rest : List UInt8}
    (low : 0 ≤ brackets) (lowBraces : 0 ≤ braces) : ∀ {members : JsonMembers}, members.PlainStrings →
      Vaudou.skipScan (some (brackets, braces + 1)) (members.textThen rest) =
        Vaudou.skipScan (some (brackets, braces)) rest
  | .last key value behind, plain => by
    rw [JsonMembers.textThen, JsonKey.skipScan plain.1,
      Json.PlainStrings.skipScan low (by omega) plain.2, skipScan_gap, skipScan_closeBrace]
  | .more key value behind before members, plain => by
    rw [JsonMembers.textThen, JsonKey.skipScan plain.1,
      Json.PlainStrings.skipScan low (by omega) plain.2.1, skipScan_gap, skipScan_comma (by omega),
      skipScan_gap]
    exact JsonMembers.PlainStrings.skipScan low lowBraces plain.2.2

end

/-- **Nothing but punctuation in strings misleads the skipper.** -/
theorem Json.PlainStrings.transparent {value : Json} (plain : value.PlainStrings) :
    value.Transparent :=
  plain.skipScan le_rfl le_rfl

end Plain

end Vaudou
