/-
**Places in a JSON text.**

A finite automaton that reads a text byte by byte and knows, outside of strings, whether a value is
expected: behind a comma or a colon one must follow (`hungry`), behind an opening bracket one may
(`opened`). It does not match brackets, and still refuses what a text looks like in which a value is
missing: nothing between a colon and a comma, a comma in front of a closing brace, a number that ends
behind its point.

* `Json.Standard.place` — every well-formed value is read, from every place where one may stand.
* `place_unfed` — behind a value that is missing or cut, the next comma or brace is refused.
-/

import Vaudou.Meta.Soundness

namespace Vaudou

open Vaudou.Text

/-- Where a JSON text is. -/
inductive JsonPlace where
  | opened | hungry | string | escaped | point | fed | broken
deriving DecidableEq, Repr

/-- A comma or a colon. -/
def isSeparating (c : UInt8) : Bool := c == charByte ',' || c == charByte ':'

/-- A closing bracket or brace. -/
def isClosing (c : UInt8) : Bool := c == charByte ']' || c == charByte '\x7d'

/-- The place behind a byte outside of strings. -/
def outsideStep (place : JsonPlace) (c : UInt8) : JsonPlace :=
  if isWhitespace c then place
  else if c = charByte '"' then .string
  else if c = charByte '[' ∨ c = charByte '\x7b' then .opened
  else if isSeparating c then (if place = .fed then .hungry else .broken)
  else if isClosing c then (if place = .hungry then .broken else .fed)
  else if c = charByte '.' then .point
  else .fed

/-- The place behind a byte. -/
def placeStep (place : JsonPlace) (c : UInt8) : JsonPlace :=
  match place with
  | .broken => .broken
  | .string => if c = charByte '"' then .fed else if c = charByte '\\' then .escaped else .string
  | .escaped => .string
  | .point => if isDigit c then .fed else .broken
  | .opened => outsideStep .opened c
  | .hungry => outsideStep .hungry c
  | .fed => outsideStep .fed c

/-- The place behind a text. -/
def placeBehind (place : JsonPlace) (s : List UInt8) : JsonPlace := s.foldl placeStep place

/-- A value may stand here. -/
def JsonPlace.Ready (place : JsonPlace) : Prop := place = .opened ∨ place = .hungry

section Places

variable {place : JsonPlace} {s rest text : List UInt8} {c : UInt8}

theorem placeBehind_append : placeBehind place (s ++ rest) = placeBehind (placeBehind place s) rest :=
  List.foldl_append

theorem placeBehind_cons : placeBehind place (c :: rest) = placeBehind (placeStep place c) rest := rfl

theorem placeBehind_broken : ∀ {s : List UInt8}, placeBehind .broken s = .broken
  | [] => rfl
  | _ :: s => placeBehind_broken (s := s)

/-- Outside of strings and of numbers. -/
def JsonPlace.Outside (place : JsonPlace) : Prop := place = .opened ∨ place = .hungry ∨ place = .fed

theorem JsonPlace.Ready.outside (ready : place.Ready) : place.Outside :=
  ready.elim Or.inl fun hungry => Or.inr (Or.inl hungry)

theorem JsonPlace.Outside.step (outside : place.Outside) : placeStep place c = outsideStep place c := by
  rcases outside with rfl | rfl | rfl <;> rfl

/-- White space leaves the place. -/
theorem JsonPlace.Outside.blank (outside : place.Outside) : ∀ {s : List UInt8},
    (∀ c ∈ s, isWhitespace c = true) → placeBehind place (s ++ rest) = placeBehind place rest
  | [], _ => rfl
  | c :: s, blank => by
    have stay : outsideStep place c = place := if_pos (blank c List.mem_cons_self)
    rw [List.cons_append, placeBehind_cons, outside.step, stay]
    exact outside.blank fun d member => blank d (List.mem_cons_of_mem c member)

theorem JsonPlace.Outside.gap (outside : place.Outside) (gap : Gap) :
    placeBehind place (gap.bytes ++ rest) = placeBehind place rest :=
  outside.blank gap.blank

/-! ### Numbers and words -/

/-- A byte of a number or of a word that is not a point. -/
def isPlainScalar (c : UInt8) : Bool := isScalarByte c && c != charByte '.'

theorem JsonPlace.Outside.plain (outside : place.Outside) (plain : isPlainScalar c = true) :
    placeStep place c = .fed := by
  simp only [isPlainScalar, isScalarByte, Bool.and_eq_true, Bool.not_eq_true', bne_iff_ne] at plain
  obtain ⟨⟨⟨⟨⟨⟨⟨⟨⟨space, -⟩, comma⟩, colon⟩, quote⟩, bracket⟩, close⟩, brace⟩, closeBrace⟩, point⟩ := plain
  have blank : isWhitespace c = false := by
    by_contra white
    rw [Bool.not_eq_false] at white
    simp only [isWhitespace, Bool.or_eq_true, beq_iff_eq] at white
    rcases white with ((rfl | rfl) | rfl) | rfl <;> simp [isSpace] at space
  rw [outside.step, outsideStep, if_neg (by rw [blank]; exact Bool.false_ne_true), if_neg quote,
    if_neg (not_or.mpr ⟨bracket, brace⟩), if_neg (by simp [isSeparating, comma, colon]),
    if_neg (by simp [isClosing, close, closeBrace]), if_neg point]

/-- A run of such bytes is a value. -/
theorem JsonPlace.Outside.word (outside : place.Outside) (some_ : s ≠ [])
    (plain : ∀ c ∈ s, isPlainScalar c = true) : placeBehind place (s ++ rest) = placeBehind .fed rest := by
  induction s generalizing place with
  | nil => exact absurd rfl some_
  | cons c s ih =>
    rw [List.cons_append, placeBehind_cons, outside.plain (plain c List.mem_cons_self)]
    cases s with
    | nil => rfl
    | cons d s =>
      exact ih (Or.inr (Or.inr rfl)) (List.cons_ne_nil d s) fun e member =>
        plain e (List.mem_cons_of_mem c member)

/-- The same for a run that may be empty, behind a value. -/
theorem placeBehind_fed (plain : ∀ c ∈ s, isPlainScalar c = true) :
    placeBehind .fed (s ++ rest) = placeBehind .fed rest := by
  cases s with
  | nil => rfl
  | cons c s =>
    have outside : JsonPlace.fed.Outside := Or.inr (Or.inr rfl)
    exact outside.word (List.cons_ne_nil c s) plain

theorem isPlainScalar_digit (digit : isDigit c = true) : isPlainScalar c = true := by
  rw [isPlainScalar, isScalarByte_digit digit, Bool.true_and, bne_iff_ne]
  rintro rfl
  exact absurd digit (by decide)

theorem isPlainScalar_sign {sign : List UInt8} (is : sign = [] ∨ sign = ascii "-" ∨ sign = ascii "+") :
    ∀ c ∈ sign, isPlainScalar c = true := by
  rcases is with rfl | rfl | rfl <;> decide +kernel

/-- **A number is read.** -/
theorem JsonPlace.Outside.number (outside : place.Outside) (number : JsonNumber text) :
    placeBehind place (text ++ rest) = placeBehind .fed rest := by
  obtain ⟨sign, whole, fraction, exponent, rfl, signed, ⟨some_, digits, -⟩, fractional, scaled⟩ := number
  have front : ∀ c ∈ sign ++ whole, isPlainScalar c = true := by
    intro c member
    rcases List.mem_append.mp member with inSign | inWhole
    · exact isPlainScalar_sign (signed.elim Or.inl fun minus => Or.inr (Or.inl minus)) c inSign
    · exact isPlainScalar_digit (digits c inWhole)
  have behind : ∀ c ∈ exponent, isPlainScalar c = true := by
    rcases scaled with rfl | ⟨e, sign', digits', rfl, letter, signed', -, digital⟩
    · exact fun c member => absurd member List.not_mem_nil
    · intro c member
      rcases List.mem_cons.mp member with rfl | later
      · exact (show ∀ c ∈ ascii "eE", isPlainScalar c = true by decide +kernel) c letter
      rcases List.mem_append.mp later with inSign | inDigits
      · exact isPlainScalar_sign signed' c inSign
      · exact isPlainScalar_digit (digital c inDigits)
  have wholeSome : sign ++ whole ≠ [] := List.append_ne_nil_of_right_ne_nil sign some_
  rw [← List.append_assoc sign, List.append_assoc, outside.word wholeSome front, List.append_assoc]
  rcases fractional with rfl | ⟨digits', rfl, some', digital⟩
  · exact placeBehind_fed behind
  · obtain ⟨d, later, rfl⟩ := List.exists_cons_of_ne_nil some'
    have first : placeStep .point d = .fed := if_pos (digital d List.mem_cons_self)
    show placeBehind (placeStep .point d) (later ++ (exponent ++ rest)) = _
    rw [first, placeBehind_fed fun c member => isPlainScalar_digit (digital c (List.mem_cons_of_mem d member)),
      placeBehind_fed behind]

/-! ### Strings -/

/-- A byte that is neither a quote nor a backslash stays in the string. -/
theorem placeStep_string (quote : c ≠ charByte '"') (backslash : c ≠ charByte '\\') :
    placeStep .string c = .string := by
  rw [placeStep, if_neg quote, if_neg backslash]

theorem placeBehind_inside (plain : ∀ c ∈ s, c ≠ charByte '"' ∧ c ≠ charByte '\\') :
    placeBehind .string (s ++ rest) = placeBehind .string rest := by
  induction s with
  | nil => rfl
  | cons c s ih =>
    have here := plain c List.mem_cons_self
    rw [List.cons_append, placeBehind_cons, placeStep_string here.1 here.2]
    exact ih fun d member => plain d (List.mem_cons_of_mem c member)

theorem JsonBody.placeBehind (standard : JsonBody s) :
    Vaudou.placeBehind .string (s ++ rest) = Vaudou.placeBehind .string rest := by
  induction standard with
  | nil => rfl
  | char _ quote backslash _ ih =>
    rw [List.cons_append, placeBehind_cons, placeStep_string quote backslash]
    exact ih
  | escape _ _ ih => exact ih
  | @unicode digits body _ hex _ ih =>
    have plain : ∀ c ∈ digits, c ≠ charByte '"' ∧ c ≠ charByte '\\' := fun c member =>
      (show ∀ c ∈ ascii "0123456789abcdefABCDEF", c ≠ charByte '"' ∧ c ≠ charByte '\\' by decide +kernel) c
        (hex c member)
    show Vaudou.placeBehind .string (digits ++ body ++ rest) = _
    rw [List.append_assoc, placeBehind_inside plain]
    exact ih

/-- **A string is read.** -/
theorem JsonPlace.Outside.quoted {body : List UInt8} (outside : place.Outside) (standard : JsonBody body) :
    placeBehind place (quoted body ++ rest) = placeBehind .fed rest := by
  have opens : placeStep place (charByte '"') = .string := by
    rw [outside.step]
    rfl
  rw [quoted_append, placeBehind_cons, opens, standard.placeBehind]
  rfl

/-! ### Values -/

theorem JsonPlace.Outside.opens (outside : place.Outside) (c : UInt8)
    (opening : c = charByte '[' ∨ c = charByte '\x7b') : placeStep place c = .opened := by
  rw [outside.step]
  rcases opening with rfl | rfl <;> rfl

theorem JsonKey.placeBehind {key : JsonKey} (outside : place.Outside) (standard : JsonBody key.name.body) :
    Vaudou.placeBehind place (key.textThen rest) = Vaudou.placeBehind .hungry rest := by
  have fed : JsonPlace.fed.Outside := Or.inr (Or.inr rfl)
  have hungry : JsonPlace.hungry.Outside := Or.inr (Or.inl rfl)
  rw [JsonKey.textThen, outside.quoted standard, fed.gap, placeBehind_cons]
  exact hungry.gap key.before

mutual

/-- **Every well-formed value is read.** -/
theorem Json.Standard.place {place : JsonPlace} {rest : List UInt8} (outside : place.Outside) :
    ∀ {value : Json}, value.Standard → placeBehind place (value.textThen rest) = placeBehind .fed rest
  | .scalar token, standard => by
    rw [Json.textThen]
    rcases standard with number | word
    · exact outside.number number
    · refine outside.word token.nonempty ?_
      simp only [List.mem_cons, List.not_mem_nil, or_false] at word
      rcases word with same | same | same <;> rw [same] <;> decide +kernel
  | .string token, standard => outside.quoted standard
  | .emptyArray inside, _ => by
    have opened : JsonPlace.opened.Outside := Or.inl rfl
    rw [Json.textThen, placeBehind_cons, outside.opens _ (Or.inl rfl), opened.gap]
    rfl
  | .array before items, standard => by
    have opened : JsonPlace.opened.Outside := Or.inl rfl
    rw [Json.textThen, placeBehind_cons, outside.opens _ (Or.inl rfl), opened.gap]
    exact JsonItems.Standard.place (Or.inl rfl) standard
  | .emptyObject inside, _ => by
    have opened : JsonPlace.opened.Outside := Or.inl rfl
    rw [Json.textThen, placeBehind_cons, outside.opens _ (Or.inr rfl), opened.gap]
    rfl
  | .object before members, standard => by
    have opened : JsonPlace.opened.Outside := Or.inl rfl
    rw [Json.textThen, placeBehind_cons, outside.opens _ (Or.inr rfl), opened.gap]
    exact JsonMembers.Standard.place (Or.inl rfl) standard

theorem JsonItems.Standard.place {place : JsonPlace} {rest : List UInt8} (outside : place.Outside) :
    ∀ {items : JsonItems}, items.Standard →
      placeBehind place (items.textThen rest) = placeBehind .fed rest
  | .last value behind, standard => by
    have fed : JsonPlace.fed.Outside := Or.inr (Or.inr rfl)
    rw [JsonItems.textThen, Json.Standard.place outside standard, fed.gap]
    rfl
  | .more value behind before items, standard => by
    have fed : JsonPlace.fed.Outside := Or.inr (Or.inr rfl)
    have hungry : JsonPlace.hungry.Outside := Or.inr (Or.inl rfl)
    rw [JsonItems.textThen, Json.Standard.place outside standard.1, fed.gap, placeBehind_cons]
    show placeBehind .hungry _ = _
    rw [hungry.gap]
    exact JsonItems.Standard.place hungry standard.2

theorem JsonMembers.Standard.place {place : JsonPlace} {rest : List UInt8} (outside : place.Outside) :
    ∀ {members : JsonMembers}, members.Standard →
      placeBehind place (members.textThen rest) = placeBehind .fed rest
  | .last key value behind, standard => by
    have fed : JsonPlace.fed.Outside := Or.inr (Or.inr rfl)
    have hungry : JsonPlace.hungry.Outside := Or.inr (Or.inl rfl)
    rw [JsonMembers.textThen, JsonKey.placeBehind outside standard.1,
      Json.Standard.place hungry standard.2, fed.gap]
    rfl
  | .more key value behind before members, standard => by
    have fed : JsonPlace.fed.Outside := Or.inr (Or.inr rfl)
    have hungry : JsonPlace.hungry.Outside := Or.inr (Or.inl rfl)
    rw [JsonMembers.textThen, JsonKey.placeBehind outside standard.1,
      Json.Standard.place hungry standard.2.1, fed.gap, placeBehind_cons]
    show placeBehind .hungry _ = _
    rw [hungry.gap]
    exact JsonMembers.Standard.place hungry standard.2.2

end

/-! ### Missing values -/

/-- **No whole value**: nothing, or a text that is refused or ends behind a point. -/
def Unfed (place : JsonPlace) (text : List UInt8) : Prop :=
  text = [] ∨ placeBehind place text = .broken ∨ placeBehind place text = .point

/-- **A value that is missing** is noticed at the next comma or bracket, unless an array or an object was
just opened that is closed there. -/
theorem place_unfed (ready : place.Ready) (unfed : Unfed place text)
    (blank : ∀ d ∈ s, isWhitespace d = true) (ends : c = charByte ',' ∨ isClosing c = true)
    (kept : ¬ (text = [] ∧ place = .opened ∧ isClosing c = true)) :
    placeBehind place (text ++ (s ++ c :: rest)) = .broken := by
  have visible : isWhitespace c = false ∧ isDigit c = false := by
    rcases ends with rfl | closing
    · decide
    · simp only [isClosing, Bool.or_eq_true, beq_iff_eq] at closing
      rcases closing with rfl | rfl <;> decide
  rcases unfed with rfl | broken | point
  · rw [List.nil_append, ready.outside.blank blank, placeBehind_cons]
    have refused : placeStep place c = .broken := by
      rcases ends with rfl | closing
      · rcases ready with rfl | rfl <;> rfl
      · have hungry : place = .hungry := ready.resolve_left fun opened => kept ⟨rfl, opened, closing⟩
        subst hungry
        simp only [isClosing, Bool.or_eq_true, beq_iff_eq] at closing
        rcases closing with rfl | rfl <;> rfl
    rw [refused, placeBehind_broken]
  · rw [placeBehind_append, broken, placeBehind_broken]
  · rw [placeBehind_append, point]
    cases s with
    | nil =>
      have refused : placeStep .point c = .broken := if_neg (by rw [visible.2]; exact Bool.false_ne_true)
      rw [List.nil_append, placeBehind_cons, refused, placeBehind_broken]
    | cons d s =>
      have white := blank d List.mem_cons_self
      have refused : placeStep .point d = .broken := by
        refine if_neg ?_
        simp only [isWhitespace, Bool.or_eq_true, beq_iff_eq] at white
        rcases white with ((rfl | rfl) | rfl) | rfl <;> decide
      rw [List.cons_append, placeBehind_cons, refused, placeBehind_broken]

end Places

end Vaudou
