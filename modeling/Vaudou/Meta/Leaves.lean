/-
**The parser at the leaves of a document.**

`strtol` and its like depend on the token in front of them only (`ReadsToken`), and so does the parser of
a value that is no object: on a scalar and on a string literal it does the same whatever comes behind
(`parseToken_scalar`, `parseToken_literal`). `readToken` is what it makes of the token alone.

* `reads_token` — the parser has read the token, or it is stuck: what is left starts with something that
  is neither skipped nor the end of a value.
-/

import Vaudou.Meta.Documents

namespace Vaudou

open Vaudou.Memory Vaudou.Text

/-! ### Reading a token -/

/-- The token ends in front of `rest`. -/
structure TokenEnd (token rest : List UInt8) : Prop where
  scalar : ∀ c ∈ token, isScalarByte c = true
  stop : ∀ c ∈ rest.head?, isScalarByte c = false
  space : token = [] → ∀ c ∈ rest.head?, isSpace c = false

/-- A procedure that reads a number, such as `strtol`, returns the end of its text, and depends on the
token in front only. -/
structure ReadsToken {α : Type} (read : List UInt8 → α × List UInt8) : Prop where
  suffix : ∀ s, (read s).2 <:+ s
  ends : ∀ {token rest}, TokenEnd token rest →
    read (token ++ rest) = ((read token).1, (read token).2 ++ rest)

/-- `strtof` and `strtod` do. -/
structure CFloat.ReadsTokens (floats : CFloat) : Prop where
  strtof : ReadsToken floats.strtof
  strtod : ReadsToken floats.strtod

section Tokens

variable {token rest s : List UInt8}

/-- A run of bytes ends where the text goes on with another byte. -/
theorem span_append {p : UInt8 → Bool} (stop : ∀ c ∈ rest.head?, p c = false) :
    (s ++ rest).takeWhile p = s.takeWhile p ∧ (s ++ rest).dropWhile p = s.dropWhile p ++ rest := by
  induction s with
  | nil =>
    cases rest with
    | nil => exact ⟨rfl, rfl⟩
    | cons c rest =>
      have other : ¬ p c = true := by
        rw [stop c rfl]
        exact Bool.false_ne_true
      exact ⟨List.takeWhile_cons_of_neg other, List.dropWhile_cons_of_neg other⟩
  | cons c s ih =>
    by_cases inside : p c = true
    · rw [List.cons_append, List.takeWhile_cons_of_pos inside, List.takeWhile_cons_of_pos inside,
        List.dropWhile_cons_of_pos inside, List.dropWhile_cons_of_pos inside, ih.1]
      exact ⟨rfl, ih.2⟩
    · rw [List.cons_append, List.takeWhile_cons_of_neg inside, List.takeWhile_cons_of_neg inside,
        List.dropWhile_cons_of_neg inside, List.dropWhile_cons_of_neg inside]
      exact ⟨rfl, rfl⟩

/-- What a scalar byte is not. -/
theorem isScalarByte_plain {c : UInt8} (scalar : isScalarByte c = true) :
    isSpace c = false ∧ c ≠ charByte ',' ∧ c ≠ charByte '"' ∧ c ≠ charByte '[' ∧ c ≠ charByte ']' ∧
      c ≠ charByte '\x7b' ∧ c ≠ charByte '\x7d' := by
  simp only [isScalarByte, Bool.and_eq_true, bne_iff_ne, Bool.not_eq_true'] at scalar
  obtain ⟨⟨⟨⟨⟨⟨⟨⟨space, -⟩, comma⟩, -⟩, quote⟩, bracket⟩, close⟩, brace⟩, closeBrace⟩ := scalar
  exact ⟨space, comma, quote, bracket, close, brace, closeBrace⟩

theorem isScalarByte_digit {c : UInt8} (digit : isDigit c = true) : isScalarByte c = true := by
  simp only [isDigit, Bool.and_eq_true, decide_eq_true_eq] at digit
  have low : 48 ≤ c.toNat := UInt8.le_iff_toNat_le.mp digit.1
  have high : c.toNat ≤ 57 := UInt8.le_iff_toNat_le.mp digit.2
  obtain ⟨n, bound, rfl⟩ : ∃ n, n < 256 ∧ c = UInt8.ofNat n := ⟨c.toNat, c.toNat_lt, by simp⟩
  rw [UInt8.toNat_ofNat_of_lt' bound] at low high
  interval_cases n <;> rfl

/-- The front of a token is no space. -/
theorem TokenEnd.front (ended : TokenEnd token rest) : ∀ c ∈ (token ++ rest).head?,
    isSpace c = false := by
  intro c head
  cases token with
  | nil => exact ended.space rfl c head
  | cons d token =>
    obtain rfl := Option.some.inj head
    exact (isScalarByte_plain (ended.scalar d List.mem_cons_self)).1

theorem TokenEnd.alone (ended : TokenEnd token rest) : TokenEnd token [] :=
  ⟨ended.scalar, (fun _ head => nomatch head), fun _ _ head => nomatch head⟩

/-- Nothing is dropped from a text with a visible front. -/
theorem dropWhile_front {p : UInt8 → Bool} (front : ∀ c ∈ s.head?, p c = false) : s.dropWhile p = s := by
  cases s with
  | nil => rfl
  | cons c s => exact List.dropWhile_cons_of_neg (by rw [front c rfl]; exact Bool.false_ne_true)

/-- The sign stands in the token. -/
theorem readSign_append (ended : TokenEnd token rest) :
    readSign (token ++ rest) = ((readSign token).1, (readSign token).2 ++ rest) := by
  cases token with
  | nil =>
    cases rest with
    | nil => rfl
    | cons c rest =>
      have stop := ended.stop c rfl
      have minus : c ≠ charByte '-' := by
        rintro rfl
        cases stop
      have plus : c ≠ charByte '+' := by
        rintro rfl
        cases stop
      show readSign (c :: rest) = (false, c :: rest)
      rw [readSign, if_neg minus, if_neg plus]
  | cons c token =>
    rw [List.cons_append, readSign, readSign]
    split_ifs <;> rfl

/-- **An integer depends on the token in front only.** -/
theorem readInteger_append (ended : TokenEnd token rest) :
    readInteger (token ++ rest) = (readInteger token).map fun n => (n.1, n.2.1, n.2.2 ++ rest) := by
  have stop : ∀ c ∈ rest.head?, isDigit c = false := by
    intro c head
    by_contra digit
    have scalar := isScalarByte_digit (Bool.of_not_eq_false digit)
    rw [ended.stop c head] at scalar
    cases scalar
  obtain ⟨digits, behind⟩ := span_append (s := (readSign token).2) stop
  have whole := dropWhile_front ended.front
  have alone := dropWhile_front (s := token) (p := isSpace) (by
    have front := ended.alone.front
    rwa [List.append_nil] at front)
  unfold readInteger
  rw [whole, alone, readSign_append ended]
  simp only [digits, behind]
  split_ifs <;> rfl

theorem readInteger_suffix {sign : Bool} {n : Nat} (read : readInteger s = some (sign, n, rest)) :
    rest <:+ s := by
  have signed : ∀ s, (readSign s).2 <:+ s := by
    intro s
    cases s with
    | nil => exact List.suffix_refl []
    | cons c s =>
      rw [readSign]
      split_ifs
      · exact List.suffix_cons c s
      · exact List.suffix_cons c s
      · exact List.suffix_refl _
  unfold readInteger at read
  simp only at read
  split at read
  · cases read
  · obtain ⟨-, same⟩ := Prod.mk.inj (Option.some.inj read)
    obtain ⟨-, rfl⟩ := Prod.mk.inj same
    exact (List.dropWhile_suffix _).trans ((signed _).trans (List.dropWhile_suffix _))

theorem strtol_readsToken (bits : Nat) : ReadsToken (strtol bits) where
  suffix s := by
    unfold strtol
    cases read : readInteger s with
    | none => exact List.suffix_refl s
    | some n => exact readInteger_suffix read
  ends ended := by
    unfold strtol
    rw [readInteger_append ended]
    cases readInteger _ <;> rfl

theorem strtoul_readsToken (bits : Nat) : ReadsToken (strtoul bits) where
  suffix s := by
    unfold strtoul
    cases read : readInteger s with
    | none => exact List.suffix_refl s
    | some n =>
      have suffix := readInteger_suffix read
      simp only
      split_ifs <;> exact suffix
  ends ended := by
    unfold strtoul
    rw [readInteger_append ended]
    cases readInteger _ with
    | none => rfl
    | some n =>
      simp only [Option.map_some]
      split_ifs <;> rfl

end Tokens

/-- The result on a text that goes on with `rest`. -/
def ParseResult.behind (result : ParseResult) (rest : List UInt8) : ParseResult :=
  result.map fun parsed => (parsed.1, parsed.2.map (· ++ rest))

section Leaves

variable {P : MetaParser} {descriptor : MetaDescriptor} {heap : BlockHeap} {mem : Mem}
  {token rest s : List UInt8} {object : Nat}

/-- The parser of a value that is a token. -/
def parseToken (P : MetaParser) (descriptor : Option MetaDescriptor) (heap : BlockHeap)
    (s : List UInt8) (object : Nat) : ParseResult :=
  parseJsonDescriptor P (fun _ _ _ _ => none) 0 descriptor heap s object

/-- What does not start with a brace is parsed as a token. -/
theorem parseJsonDescriptor_token {parseObject : ParseProc} {type : Nat}
    {descriptor : Option MetaDescriptor}
    (brace : peekChar (charByte '\x7b') s = false) :
    parseJsonDescriptor P parseObject type descriptor heap s object =
      parseToken P descriptor heap s object := by
  unfold parseToken parseJsonDescriptor
  rw [brace]
  rfl

variable (object) in
/-- The kinds other than `char` are read as numbers. -/
theorem parsePrimitive_number (floats : P.floats.ReadsTokens) {kind : MetaPrimitiveType}
    (number : kind ≠ .char8) : ∃ (α : Type) (read : List UInt8 → α × List UInt8) (write : Mem → α → Mem),
      ReadsToken read ∧
        ∀ mem s, parsePrimitive P mem s object kind = (write mem (read s).1, (read s).2) := by
  cases kind with
  | i8 | i16 | i32 | i64 => exact ⟨_, _, _, strtol_readsToken _, fun _ _ => rfl⟩
  | u8 | u16 | u32 | u64 => exact ⟨_, _, _, strtoul_readsToken _, fun _ _ => rfl⟩
  | f32 => exact ⟨_, _, _, floats.strtof, fun _ _ => rfl⟩
  | f64 => exact ⟨_, _, _, floats.strtod, fun _ _ => rfl⟩
  | char8 => exact absurd rfl number

theorem expectChar_none {c : UInt8} (other : ∀ d ∈ s.head?, d ≠ c) : expectChar c s = none := by
  cases s with
  | nil => rfl
  | cons d s => exact expectChar_ne (other d rfl)

theorem peekChar_false {c : UInt8} (other : ∀ d ∈ s.head?, d ≠ c) : peekChar c s = false :=
  beq_eq_false_iff_ne.mpr fun same => other c same rfl

/-- **The value of a scalar token** does not depend on what comes behind it. -/
theorem parseToken_scalar (floats : P.floats.ReadsTokens) (ended : TokenEnd token rest)
    (front : ∀ c ∈ (token ++ rest).head?, c ≠ charByte '"' ∧ c ≠ charByte '\x7b') :
    parseToken P (some descriptor) heap (token ++ rest) object =
      (parseToken P (some descriptor) heap token object).behind rest := by
  have alone : ∀ c ∈ token.head?, c ≠ charByte '"' ∧ c ≠ charByte '\x7b' := by
    intro c head
    obtain ⟨tail, rfl⟩ : ∃ tail, token = c :: tail := by
      cases token with
      | nil => cases head
      | cons d tail => exact ⟨tail, by rw [Option.some.inj head]⟩
    exact front c rfl
  have noQuote : expectChar (charByte '"') (token ++ rest) = none :=
    expectChar_none fun c head => (front c head).1
  have noQuoteAlone : expectChar (charByte '"') token = none :=
    expectChar_none fun c head => (alone c head).1
  unfold parseToken parseJsonDescriptor
  rw [peekChar_false fun c head => (front c head).2, peekChar_false fun c head => (alone c head).2]
  simp only [Bool.false_eq_true, if_false, Option.bind_some]
  cases descriptor.typeClass with
  | primitive =>
    by_cases kind : descriptor.primitive = .char8
    · simp only [kind, parsePrimitive, noQuote, noQuoteAlone]
      rfl
    · obtain ⟨α, read, write, reads, same⟩ := parsePrimitive_number object floats kind
      simp only [same, reads.ends ended]
      rfl
  | string =>
    cases descriptor.string with
    | cstring =>
      simp only [parseCString, parseJsonString, noQuote, noQuoteAlone]
      rfl
    | slice => rfl
  | array => rfl
  | object => rfl

/-- A string is read up to its quote, whatever comes behind. -/
theorem parseStringBody_append : ∀ {s : List UInt8} {escaped : Bool} {content r : List UInt8},
    parseStringBody escaped s = some (content, r) →
      parseStringBody escaped (s ++ rest) = some (content, r ++ rest)
  | [], escaped, _, _, parsed => by
    cases escaped <;> cases parsed
  | c :: s, true, _, _, parsed => by
    rw [parseStringBody] at parsed
    obtain ⟨⟨later, r⟩, inner, same⟩ := Option.map_eq_some_iff.mp parsed
    obtain ⟨rfl, rfl⟩ := Prod.mk.inj same
    rw [List.cons_append, parseStringBody, parseStringBody_append inner]
    rfl
  | c :: s, false, _, _, parsed => by
    rw [parseStringBody] at parsed
    rw [List.cons_append, parseStringBody]
    split_ifs at parsed ⊢
    · obtain ⟨rfl, rfl⟩ := Prod.mk.inj (Option.some.inj parsed)
      rfl
    · exact parseStringBody_append parsed
    · obtain ⟨⟨later, r⟩, inner, same⟩ := Option.map_eq_some_iff.mp parsed
      obtain ⟨rfl, rfl⟩ := Prod.mk.inj same
      rw [parseStringBody_append inner]
      rfl

/-- A string that is read does not depend on what comes behind it. -/
theorem parseJsonString_append {content r : List UInt8} (parsed : parseJsonString s = some (content, r)) :
    parseJsonString (s ++ rest) = some (content, r ++ rest) := by
  obtain ⟨inner, opened, parsed⟩ := Option.bind_eq_some_iff.mp parsed
  obtain ⟨⟨whole, r⟩, body, same⟩ := Option.map_eq_some_iff.mp parsed
  obtain ⟨rfl, rfl⟩ := Prod.mk.inj same
  have front : expectChar (charByte '"') (s ++ rest) = some (inner ++ rest) := by
    rw [expectChar_some opened, List.cons_append, expectChar_cons]
  rw [parseJsonString, front, Option.bind_some, parseStringBody_append body]
  rfl

/-- **A string literal is read up to its quote.** -/
theorem Literal.parseJsonString (token : Literal) :
    Vaudou.parseJsonString (quoted token.body ++ rest) = some (token.content, rest) :=
  parseJsonString_append token.closed

/-- **A string that is read as a character** does not depend on what comes behind it. -/
theorem parsePrimitive_quoted {body : List UInt8} (follows : ∀ c ∈ rest.head?, c ≠ charByte '"') :
    parsePrimitive P mem (quoted body ++ rest) object .char8 =
      ((parsePrimitive P mem (quoted body) object .char8).1,
        (parsePrimitive P mem (quoted body) object .char8).2 ++ rest) := by
  have noQuote : expectChar (charByte '"') rest = none := expectChar_none follows
  rw [quoted_append, parsePrimitive, expectChar_cons]
  cases body with
  | nil => simp only [parsePrimitive, quoted, expectChar_cons, List.nil_append, readChar, noQuote]; rfl
  | cons c body =>
    cases body with
    | nil =>
      simp only [parsePrimitive, quoted, expectChar_cons, List.cons_append, List.nil_append, readChar]
    | cons d body =>
      simp only [parsePrimitive, quoted, expectChar_cons, List.cons_append, readChar]
      by_cases quote : d = charByte '"'
      · subst quote
        simp only [expectChar_cons, List.append_assoc, List.singleton_append]
      · simp only [expectChar_ne quote, List.cons_append, List.append_assoc, List.nil_append]

/-- A quote ends a token. -/
theorem TokenEnd.quoted (s : List UInt8) : TokenEnd [] (charByte '"' :: s) where
  scalar _ member := absurd member List.not_mem_nil
  stop c head := by
    rw [← Option.some.inj head]
    rfl
  space _ c head := by
    rw [← Option.some.inj head]
    rfl

/-- No number is read at a quote. -/
theorem ReadsToken.quoted {α : Type} {read : List UInt8 → α × List UInt8} (reads : ReadsToken read)
    (s : List UInt8) : read (charByte '"' :: s) = ((read []).1, charByte '"' :: s) := by
  have nothing : (read []).2 = [] := List.suffix_nil.mp (reads.suffix [])
  have ended := reads.ends (TokenEnd.quoted s)
  rwa [nothing, List.nil_append] at ended

/-- **The value of a string literal** does not depend on what comes behind it. -/
theorem parseToken_literal (floats : P.floats.ReadsTokens) (token : Literal)
    (follows : ∀ c ∈ rest.head?, c ≠ charByte '"') :
    parseToken P (some descriptor) heap (quoted token.body ++ rest) object =
      (parseToken P (some descriptor) heap (quoted token.body) object).behind rest := by
  have brace : peekChar (charByte '\x7b') (quoted token.body ++ rest) = false := rfl
  have braceAlone : peekChar (charByte '\x7b') (quoted token.body) = false := rfl
  unfold parseToken parseJsonDescriptor
  rw [brace, braceAlone]
  simp only [Bool.false_eq_true, if_false, Option.bind_some]
  cases descriptor.typeClass with
  | primitive =>
    by_cases kind : descriptor.primitive = .char8
    · simp only [kind, parsePrimitive_quoted follows]
      rfl
    · obtain ⟨α, read, write, reads, same⟩ := parsePrimitive_number object floats kind
      simp only [same, quoted, reads.quoted, ParseResult.behind, Option.map_some,
        Except.map, List.cons_append, List.append_assoc, List.nil_append]
  | string =>
    cases descriptor.string with
    | cstring =>
      simp only [parseCString, token.parseJsonString, token.closed, ParseResult.behind, Option.map_map]
      rfl
    | slice => rfl
  | array => rfl
  | object => rfl

/-! ### Reading up to a place -/

/-- The text starts with something that is neither skipped nor the end of a value. -/
def Blocked (s : List UInt8) : Prop :=
  ∃ c rest, s = c :: rest ∧ isWhitespace c = false ∧ c ≠ charByte ',' ∧ c ≠ charByte ']' ∧
    c ≠ charByte '\x7d'

/-- Behind an escaped quote at its front, the string goes on with something that the parser stops at. -/
def Literal.CharClear (token : Literal) : Prop :=
  ∀ behind, token.body = charByte '\\' :: charByte '"' :: behind → Blocked (behind ++ [charByte '"'])

/-- The heap and the rest of the slice behind code 0. -/
def ParseResult.accepted : ParseResult → Option (BlockHeap × List UInt8)
  | some (heap, .ok rest) => some (heap, rest)
  | _ => none

/-- **The result is this meaning of what was in front of `rest`**, or the parser is stuck. -/
def Reads (result : ParseResult) (meaning : Option BlockHeap) (rest : List UInt8) : Prop :=
  match meaning with
  | some heap => result.accepted = some (heap, rest)
  | none => ∀ heap r, result.accepted = some (heap, r) → Blocked r

/-- **What a token means** for a value of a type: the parser reads all of it. -/
def readToken (P : MetaParser) (type : Nat) (heap : BlockHeap) (token : List UInt8) (object : Nat) :
    Option BlockHeap :=
  match parseToken P (metaGetDescriptor P.reg type) heap token object with
  | some (heap, .ok []) => some heap
  | _ => none

theorem Blocked.append (blocked : Blocked s) (rest : List UInt8) : Blocked (s ++ rest) := by
  obtain ⟨c, tail, rfl, visible⟩ := blocked
  exact ⟨c, tail ++ rest, rfl, visible⟩

theorem Blocked.quote (s : List UInt8) : Blocked (charByte '"' :: s) :=
  ⟨_, s, rfl, by decide, by decide, by decide, by decide⟩

theorem Blocked.scalar {c : UInt8} (scalar : isScalarByte c = true) : Blocked (c :: s) := by
  obtain ⟨space, comma, -, -, close, -, closeBrace⟩ := isScalarByte_plain scalar
  refine ⟨c, s, rfl, ?_, comma, close, closeBrace⟩
  by_contra blank
  simp only [Bool.not_eq_false, isWhitespace, Bool.or_eq_true, beq_iff_eq] at blank
  rcases blank with ((rfl | rfl) | rfl) | rfl <;> cases space

/-- **A token is read**, where the parser leaves nothing of it or is stuck. -/
theorem reads_token {type : Nat} {result : ParseResult}
    (found : metaGetDescriptor P.reg type = some descriptor)
    (behind : result = (parseToken P (some descriptor) heap token object).behind rest)
    (leaves : ∀ heap' r, parseToken P (some descriptor) heap token object = some (heap', .ok r) →
      r = [] ∨ Blocked (r ++ rest)) : Reads result (readToken P type heap token object) rest := by
  subst behind
  unfold readToken
  rw [found]
  cases parsed : parseToken P (some descriptor) heap token object with
  | none =>
    intro heap r accepted
    cases accepted
  | some outcome =>
    obtain ⟨heap', code | r⟩ := outcome
    · intro heap r accepted
      cases accepted
    · rcases leaves heap' r parsed with rfl | blocked
      · rfl
      · cases r with
        | nil => rfl
        | cons c r =>
          intro heap'' r' accepted
          obtain ⟨-, rfl⟩ := Prod.mk.inj (Option.some.inj accepted)
          exact blocked

/-! ### What is left of a token -/

/-- The rest of a string is an end of its text. -/
theorem parseStringBody_suffix : ∀ {s : List UInt8} {escaped : Bool} {content r : List UInt8},
    parseStringBody escaped s = some (content, r) → r <:+ s
  | [], escaped, _, _, parsed => by
    cases escaped <;> cases parsed
  | c :: s, true, _, _, parsed => by
    rw [parseStringBody] at parsed
    obtain ⟨⟨later, r⟩, inner, same⟩ := Option.map_eq_some_iff.mp parsed
    obtain ⟨-, rfl⟩ := Prod.mk.inj same
    exact (parseStringBody_suffix inner).trans (List.suffix_cons c s)
  | c :: s, false, _, _, parsed => by
    rw [parseStringBody] at parsed
    split_ifs at parsed
    · obtain ⟨-, rfl⟩ := Prod.mk.inj (Option.some.inj parsed)
      exact List.suffix_cons c s
    · exact (parseStringBody_suffix parsed).trans (List.suffix_cons c s)
    · obtain ⟨⟨later, r⟩, inner, same⟩ := Option.map_eq_some_iff.mp parsed
      obtain ⟨-, rfl⟩ := Prod.mk.inj same
      exact (parseStringBody_suffix inner).trans (List.suffix_cons c s)

theorem parseJsonString_suffix {content r : List UInt8}
    (parsed : parseJsonString s = some (content, r)) :
    r <:+ s := by
  obtain ⟨inner, opened, parsed⟩ := Option.bind_eq_some_iff.mp parsed
  obtain ⟨⟨whole, r⟩, body, same⟩ := Option.map_eq_some_iff.mp parsed
  obtain ⟨-, rfl⟩ := Prod.mk.inj same
  rw [expectChar_some opened]
  exact (parseStringBody_suffix body).trans (List.suffix_cons _ inner)

theorem readChar_suffix : (readChar s).2 <:+ s := by
  cases s with
  | nil => exact List.suffix_refl []
  | cons c s => exact List.suffix_cons c s

theorem parsePrimitive_suffix (floats : P.floats.ReadsTokens) (kind : MetaPrimitiveType) :
    (parsePrimitive P mem s object kind).2 <:+ s := by
  by_cases char : kind = .char8
  · subst char
    unfold parsePrimitive
    simp only
    split
    · exact List.suffix_refl s
    next opened =>
    split
    · exact List.suffix_refl s
    next inner closed =>
    rw [expectChar_some opened]
    refine List.IsSuffix.trans ?_ (List.suffix_cons _ _)
    have last : inner <:+ charByte '"' :: inner := List.suffix_cons _ _
    rw [← expectChar_some closed] at last
    exact last.trans readChar_suffix
  · obtain ⟨α, read, write, reads, same⟩ := parsePrimitive_number object floats char
    rw [same]
    exact reads.suffix s

/-- **The parser of a token returns an end of its text.** -/
theorem parseToken_suffix {heap' : BlockHeap} {r : List UInt8} (floats : P.floats.ReadsTokens)
    (parsed : parseToken P (some descriptor) heap s object = some (heap', .ok r)) : r <:+ s := by
  have plain : ∀ {heap'' : BlockHeap} {r' : List UInt8}, some (heap'', Except.ok (ε := Int) r') = some
    (heap', .ok r) →
      r' = r := by
    intro heap'' r' same
    exact Except.ok.inj (Prod.mk.inj (Option.some.inj same)).2
  unfold parseToken parseJsonDescriptor at parsed
  split at parsed
  · cases parsed
  · rw [Option.bind_some] at parsed
    split at parsed
    · rw [← plain parsed]
      exact parsePrimitive_suffix floats _
    · split at parsed
      · unfold parseCString at parsed
        split at parsed
        · exact plain parsed ▸ List.suffix_refl s
        next key r' string =>
          obtain ⟨granted, alloc, same⟩ := Option.map_eq_some_iff.mp parsed
          rw [← Except.ok.inj (Prod.mk.inj same).2]
          exact parseJsonString_suffix string
      · exact plain parsed ▸ List.suffix_refl s
    · exact plain parsed ▸ List.suffix_refl s
    · exact plain parsed ▸ List.suffix_refl s

theorem scalar_leaves {heap' : BlockHeap} {r : List UInt8} (floats : P.floats.ReadsTokens)
    (scalar : ∀ c ∈ token, isScalarByte c = true)
    (parsed : parseToken P (some descriptor) heap token object = some (heap', .ok r)) :
    r = [] ∨ Blocked (r ++ rest) := by
  have suffix := parseToken_suffix floats parsed
  cases r with
  | nil => exact Or.inl rfl
  | cons c r => exact Or.inr (Blocked.scalar (scalar c (suffix.subset List.mem_cons_self)))

/-- A string that closes in front of its end is an escaped quote. -/
theorem Literal.escaped (token : Literal) {c : UInt8} {behind : List UInt8}
    (body : token.body = c :: charByte '"' :: behind) : c = charByte '\\' := by
  have closed := token.closed
  rw [body, Vaudou.parseJsonString, quoted, expectChar_cons, Option.bind_some, List.cons_append,
    List.cons_append] at closed
  obtain ⟨⟨content, r⟩, parsed, same⟩ := Option.map_eq_some_iff.mp closed
  obtain ⟨-, rfl⟩ : _ ∧ r = [] := Prod.mk.inj same
  rw [parseStringBody] at parsed
  split_ifs at parsed with quote zero backslash
  · cases parsed
  · exact backslash
  · rw [parseStringBody, if_pos rfl] at parsed
    cases behind <;> cases parsed

theorem literal_leaves {heap' : BlockHeap} {r : List UInt8} (floats : P.floats.ReadsTokens)
    (token : Literal)
    (clear : descriptor.typeClass = .primitive → descriptor.primitive = .char8 → token.CharClear)
    (parsed : parseToken P (some descriptor) heap (quoted token.body) object = some (heap', .ok r)) :
    r = [] ∨ Blocked (r ++ rest) := by
  have whole : quoted token.body = r → r = [] ∨ Blocked (r ++ rest) := by
    rintro rfl
    exact Or.inr (Blocked.quote _)
  have plain : ∀ {heap'' : BlockHeap} {r' : List UInt8}, some (heap'', Except.ok (ε := Int) r') = some
    (heap', .ok r) →
      r' = r := by
    intro heap'' r' same
    exact Except.ok.inj (Prod.mk.inj (Option.some.inj same)).2
  have brace : peekChar (charByte '\x7b') (quoted token.body) = false := rfl
  unfold parseToken parseJsonDescriptor at parsed
  rw [brace, if_neg Bool.false_ne_true, Option.bind_some] at parsed
  split at parsed
  next primitive =>
    by_cases kind : descriptor.primitive = .char8
    · have clear := clear primitive kind
      rw [kind] at parsed
      have left := plain parsed
      unfold parsePrimitive at left
      rw [quoted, expectChar_cons] at left
      cases body : token.body with
      | nil =>
        rw [body] at left whole
        exact whole left
      | cons c tail =>
        rw [body] at left whole
        cases tail with
        | nil => exact Or.inl left.symm
        | cons d tail =>
          by_cases quote : d = charByte '"'
          · subst quote
            rw [token.escaped body] at body
            simp only [List.cons_append, readChar, expectChar_cons] at left
            rw [← left]
            exact Or.inr ((clear tail body).append rest)
          · simp only [List.cons_append, readChar, expectChar_ne quote] at left
            exact whole left
    · obtain ⟨α, read, write, reads, same⟩ := parsePrimitive_number object floats kind
      have left := plain parsed
      rw [same, quoted, reads.quoted] at left
      exact whole left
  · split at parsed
    · rw [parseCString, token.closed] at parsed
      obtain ⟨granted, alloc, same⟩ := Option.map_eq_some_iff.mp parsed
      exact Or.inl (Except.ok.inj (Prod.mk.inj same).2).symm
    · exact whole (plain parsed)
  · exact whole (plain parsed)
  · exact whole (plain parsed)

end Leaves

end Vaudou
