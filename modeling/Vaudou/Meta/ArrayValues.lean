/-
**Intrusive arrays that are parsed.**

The loop over the elements of an array literal adds an element before it has seen whether one follows. So
the array of a literal with values has as many elements as the literal, and each is what its value is read
to (`elements_read`); the array of an empty literal has one element, that nothing is read to.

* `parsedArray_iff` — for the first field of an object, where all literals are in place, the array is the
  array of the text if and only if the literal is not empty, and its numbers fit their type.
-/

import Vaudou.Meta.ArrayPlaces
import Vaudou.Meta.Declared
import Vaudou.Meta.IntegerTokens

namespace Vaudou

open Vaudou.Memory Vaudou.Text Relation

/-- Every key that is left unset has the bytes of the parser. -/
def MetaParser.keys (P : MetaParser) : UnsetKeys := fun _ => P.unset

/-- **Element `j` is what the value is read to**: its bytes are those that reading the value to it leaves. -/
def ElementRead (P : MetaParser) (of_ : MetaField) (size location j : Nat) (value : Json) (left : BlockHeap) :
    Prop :=
  ∃ heap heap', value.read P of_ true heap (elementAt heap.mem location size j) = some heap' ∧
    left.mem.load (elementAt left.mem location size j) size =
      heap'.mem.load (elementAt heap.mem location size j) size

section Rounds

variable {P : MetaParser} {laid : P.Laid} {scan : UnsetKeys} {start : ParseCall} {of_ : MetaField}
  {element : MetaDescriptor} {base heap left : BlockHeap} {text rest tail s : List UInt8} {out i j n : Nat}
  {value : Json}

theorem ElementRead.later (read : ElementRead P of_ element.size out j value heap)
    (same : left.mem.load (elementAt left.mem out element.size j) element.size =
      heap.mem.load (elementAt heap.mem out element.size j) element.size) :
    ElementRead P of_ element.size out j value left := by
  obtain ⟨before, after, meaning, bytes⟩ := read
  exact ⟨before, after, meaning, same.trans bytes⟩

/-- What stands behind white space is expected: there is no white space. -/
theorem expectChar_gap {gap : Gap} {c d : UInt8} (visible : isWhitespace d = false)
    (expected : expectChar d (gap.bytes ++ c :: tail) = some rest) : c = d ∧ tail = rest := by
  obtain ⟨bytes, blank⟩ := gap
  cases bytes with
  | nil =>
    have split := expectChar_some expected
    exact List.cons.inj split
  | cons b bytes =>
    have split := expectChar_some expected
    have white := blank b List.mem_cons_self
    rw [(List.cons.inj split).1, visible] at white
    cases white

/-- The procedure of objects is called with the fuel for its text. -/
theorem parseJsonDescriptor_proc {type place : Nat} {descriptor : Option MetaDescriptor} :
    parseJsonDescriptor P (objectProc P P.keys) type descriptor heap s place =
      parseJsonDescriptor P (parseJsonObject P (s.length + 1)) type descriptor heap s place := by
  have same : parseJsonObjectWith P P.keys (s.length + 1) = parseJsonObject P (s.length + 1) :=
    parseJsonObjectWith_unset P (s.length + 1)
  unfold parseJsonDescriptor objectProc
  rw [same]

/-- **The value of an element** is read as what it means. -/
theorem reads_value (floats : P.floats.ReadsTokens) (valid : P.reg.FlagsValid) (flags : of_.FlagsValid)
    (found : metaGetDescriptor P.reg of_.type = some element) (clear : value.Clear P.reg of_.type)
    (ended : Ended tail) (front : skipWhitespace s = value.textThen tail) (slot : BlockHeap × Nat) :
    Reads (parseJsonDescriptor P (objectProc P P.keys) of_.type (some element) slot.1 (skipWhitespace s) slot.2)
      (value.read P of_ true slot.1 slot.2) tail := by
  have reads := reads_element (parsesValue floats valid value) clear flags ended
    (Nat.le_succ (value.textThen tail).length) slot
  rw [found, value.front.visible] at reads
  rw [front, parseJsonDescriptor_proc]
  exact reads

/-- **A round of an intrusive array**: an element is added, and what the text means is read to it. -/
theorem elements_round (floats : P.floats.Advances) (placed : start.Placed laid)
    (inPlace : ∀ call, start.Reaches P scan P.keys call → call.InPlace P.reg laid.room)
    (intrusive : of_.isIntrusiveArray = true) (found : metaGetDescriptor P.reg of_.type = some element)
    (meaning : BlockHeap → Nat → Option BlockHeap)
    (reads : ∀ slot : BlockHeap × Nat, Reads (parseJsonDescriptor P (objectProc P P.keys) of_.type (some element)
      slot.1 (skipWhitespace text) slot.2) (meaning slot.1 slot.2) tail)
    (reached : start.Reaches P scan P.keys (.elements of_ out i heap text)) (holds : laid.Holds of_ base heap out i)
    (completes : (ParseCall.elements of_ out i heap text).Completes P P.keys left rest) :
    ∃ granted filled, meaning granted (elementAt granted.mem out element.size i) = some filled ∧
      laid.Holds of_ base filled out (i + 1) ∧
      elementAt filled.mem out element.size i = elementAt granted.mem out element.size i ∧
      ((expectChar (charByte ']') tail = some rest ∧ filled = left) ∨
        ∃ later, expectChar (charByte ']') tail = none ∧ expectChar (charByte ',') tail = some later ∧
          ParseCall.Next P scan P.keys (.elements of_ out i heap text) (.elements of_ out (i + 1) filled later) ∧
            (ParseCall.elements of_ out (i + 1) filled later).Completes P P.keys left rest) := by
  obtain ⟨has, -, -⟩ := placed.reached floats inPlace reached
  have here := inPlace _ reached
  obtain ⟨heap₁, s₁, heap₂, s₂, first, second, after⟩ := completes_elements floats completes
  have notFixed := laid.exclusive has intrusive
  have fixed := first
  rw [fixedPart_plain notFixed] at fixed
  cases fixed
  have adds := second
  rw [intrusivePart, if_pos intrusive] at adds
  obtain ⟨descriptor, ⟨granted, place⟩, found', added, parsed⟩ := completes_intrusive adds
  obtain rfl : element = descriptor := Option.some.inj (found.symm.trans found')
  have toIntrusive : ParseCall.Next P scan P.keys (.elements of_ out i heap text)
      (.intrusive of_ heap (skipWhitespace text) out) := .intrusive first intrusive
  have toValue : start.Reaches P scan P.keys (.value of_.type element granted (skipWhitespace text) place) :=
    (reached.tail toIntrusive).tail (.added found added)
  -- what is parsed is what the text means: the loop would stop behind anything else
  have accepted : (parseJsonDescriptor P (objectProc P P.keys) of_.type (some element) granted
      (skipWhitespace text) place).accepted = some (heap₂, s₂) := by
    rw [show parseJsonDescriptor P (objectProc P P.keys) of_.type (some element) granted (skipWhitespace text)
      place = some (heap₂, .ok s₂) from parsed]
    rfl
  have reads := reads (granted, place)
  have meant : meaning granted place = some heap₂ ∧ s₂ = tail := by
    cases meaning' : meaning granted place with
    | some filled =>
      rw [meaning'] at reads
      have same : _ = some (filled, tail) := reads
      rw [accepted] at same
      obtain ⟨rfl, rfl⟩ := Prod.mk.inj (Option.some.inj same)
      exact ⟨rfl, rfl⟩
    | none =>
      rw [meaning'] at reads
      obtain ⟨c, behind, split, -, comma, close, -⟩ := reads heap₂ s₂ accepted
      rw [split, expectChar_ne close, expectChar_ne comma] at after
      rcases after with ⟨same, -⟩ | ⟨later, -, same, -⟩ <;> cases same
  obtain ⟨meant, rfl⟩ := meant
  obtain ⟨after_, -, rfl⟩ := holds.added has intrusive found here.1 (here.2 intrusive).1 added
  have grown : granted.Grown heap₂ (elementAt granted.mem out element.size i) element.size :=
    ParseCall.Placed.leaves floats _ (fun later rest => inPlace later (toValue.trans rest))
      (placed.reached floats inPlace toValue) parsed
  obtain ⟨filled, places, -⟩ := after_.filled has intrusive found (Nat.lt_succ_self i) grown
  refine ⟨granted, heap₂, meant, filled, places i, ?_⟩
  rcases after with ⟨closed, same⟩ | ⟨later, closed, separated, elements⟩
  · exact Or.inl ⟨closed, same⟩
  · exact Or.inr ⟨later, closed, separated, .element first second closed separated, elements⟩

/-- **A round with a value**, whose element is filled. -/
theorem elements_value (floats : P.floats.ReadsTokens) (placed : start.Placed laid)
    (inPlace : ∀ call, start.Reaches P scan P.keys call → call.InPlace P.reg laid.room)
    (intrusive : of_.isIntrusiveArray = true) (found : metaGetDescriptor P.reg of_.type = some element)
    (clear : value.Clear P.reg of_.type) (ended : Ended tail) (front : skipWhitespace text = value.textThen tail)
    (reached : start.Reaches P scan P.keys (.elements of_ out i heap text)) (holds : laid.Holds of_ base heap out i)
    (completes : (ParseCall.elements of_ out i heap text).Completes P P.keys left rest) :
    ∃ filled, laid.Holds of_ base filled out (i + 1) ∧ ElementRead P of_ element.size out i value filled ∧
      ((expectChar (charByte ']') tail = some rest ∧ filled = left) ∨
        ∃ later, expectChar (charByte ']') tail = none ∧ expectChar (charByte ',') tail = some later ∧
          ParseCall.Next P scan P.keys (.elements of_ out i heap text) (.elements of_ out (i + 1) filled later) ∧
            (ParseCall.elements of_ out (i + 1) filled later).Completes P P.keys left rest) := by
  obtain ⟨⟨type, descriptor, registered, member⟩, -, -⟩ := placed.reached floats.advances inPlace reached
  have flags := laid.flags type descriptor registered of_ member
  obtain ⟨granted, filled, meant, holds', place, after⟩ := elements_round floats.advances placed inPlace intrusive
    found (value.read P of_ true) (reads_value floats laid.flags flags found clear ended front) reached holds
      completes
  exact ⟨filled, holds', ⟨granted, filled, meant, by rw [place]⟩, after⟩

/-- **The values of a literal** are the elements of the array, in order. -/
theorem elements_read (floats : P.floats.ReadsTokens) (placed : start.Placed laid)
    (inPlace : ∀ call, start.Reaches P scan P.keys call → call.InPlace P.reg laid.room)
    (intrusive : of_.isIntrusiveArray = true) (found : metaGetDescriptor P.reg of_.type = some element) :
    ∀ (items : JsonItems) {i : Nat} {heap : BlockHeap} {text : List UInt8}, items.Clear P.reg of_.type →
      skipWhitespace text = items.textThen tail → start.Reaches P scan P.keys (.elements of_ out i heap text) →
        laid.Holds of_ base heap out i → (ParseCall.elements of_ out i heap text).Completes P P.keys left rest →
          laid.Holds of_ base left out (i + items.values.length) ∧
            ∀ k value, items.values[k]? = some value → ElementRead P of_ element.size out (i + k) value left
  | .last value behind, i, heap, text, clear, front, reached, holds, completes => by
    obtain ⟨filled, holds', read, ⟨-, rfl⟩ | ⟨later, -, separated, -⟩⟩ := elements_value floats placed inPlace
      intrusive found clear (Ended.gap behind (Or.inr (Or.inl rfl))) front reached holds completes
    · refine ⟨holds', fun k other at_ => ?_⟩
      obtain ⟨rfl, rfl⟩ : k = 0 ∧ other = value := by
        cases k with
        | zero => exact ⟨rfl, (Option.some.inj at_).symm⟩
        | succ k => cases at_
      exact read
    · exact absurd (expectChar_gap rfl separated).1 (by decide)
  | .more value behind before items, i, heap, text, clear, front, reached, holds, completes => by
    obtain ⟨filled, holds', read, ⟨closed, -⟩ | ⟨later, -, separated, next, elements⟩⟩ := elements_value floats
      placed inPlace intrusive found clear.1 (Ended.gap behind (Or.inl rfl)) front reached holds completes
    · exact absurd (expectChar_gap rfl closed).1 (by decide)
    · obtain ⟨-, rfl⟩ := expectChar_gap rfl separated
      have toLater := reached.tail next
      have front' : skipWhitespace (before.bytes ++ items.textThen tail) = items.textThen tail := by
        rw [skipWhitespace_gap, items.front.visible]
      obtain ⟨whole, reads⟩ := elements_read floats placed inPlace intrusive found items clear.2 front' toLater
        holds' elements
      refine ⟨?_, fun k other at_ => ?_⟩
      · rw [JsonItems.values, List.length_cons, Nat.add_comm items.values.length, ← Nat.add_assoc]
        exact whole
      · cases k with
        | zero =>
          obtain rfl : value = other := Option.some.inj at_
          -- the elements behind it leave this one alone
          obtain ⟨-, appended⟩ := ParseCall.Placed.leaves floats.advances _ (fun call rest =>
            inPlace call (toLater.trans rest)) (placed.reached floats.advances inPlace toLater) elements
          obtain ⟨n, -, appended⟩ := appended intrusive
          have same := (appended base holds').2 i (Nat.lt_succ_self i)
          rw [typeSize_found found] at same
          exact read.later same
        | succ k =>
          have later := reads k other at_
          rwa [Nat.add_assoc, Nat.add_comm 1] at later

/-- **An empty literal** leaves an array of one element. -/
theorem elements_empty (floats : P.floats.ReadsTokens) (placed : start.Placed laid)
    (inPlace : ∀ call, start.Reaches P scan P.keys call → call.InPlace P.reg laid.room)
    (intrusive : of_.isIntrusiveArray = true) (found : metaGetDescriptor P.reg of_.type = some element)
    (front : skipWhitespace text = charByte ']' :: tail)
    (reached : start.Reaches P scan P.keys (.elements of_ out i heap text)) (holds : laid.Holds of_ base heap out i)
    (completes : (ParseCall.elements of_ out i heap text).Completes P P.keys left rest) :
    laid.Holds of_ base left out (i + 1) := by
  have ended : TokenEnd [] (charByte ']' :: tail) := .empty tail rfl rfl
  have reads : ∀ slot : BlockHeap × Nat, Reads (parseJsonDescriptor P (objectProc P P.keys) of_.type (some element)
      slot.1 (skipWhitespace text) slot.2) (readToken P of_.type slot.1 [] slot.2) (charByte ']' :: tail) := by
    intro slot
    rw [front]
    exact reads_missing floats ended (by decide) (by decide) found
  obtain ⟨granted, filled, -, holds', -, ⟨-, rfl⟩ | ⟨later, closed, -⟩⟩ := elements_round floats.advances placed
    inPlace intrusive found (fun heap place => readToken P of_.type heap [] place) reads reached holds completes
  · exact holds'
  · rw [expectChar_cons] at closed
    cases closed

/-- What is behind the bracket of an array. -/
theorem Json.IsArray.opened {reg : MetaRegistry} {type : Nat} (array : value.IsArray) (clear : value.Clear reg type)
    (tail : List UInt8) : ∃ inner, expectChar (charByte '[') (value.textThen tail) = some inner ∧
      ((∃ behind, skipWhitespace inner = charByte ']' :: behind ∧ value.elements = []) ∨
        ∃ items : JsonItems, skipWhitespace inner = items.textThen tail ∧ value.elements = items.values ∧
          items.Clear reg type) := by
  cases value with
  | emptyArray inside =>
    refine ⟨inside.bytes ++ charByte ']' :: tail, by rw [Json.textThen, expectChar_cons], Or.inl ⟨tail, ?_, rfl⟩⟩
    rw [skipWhitespace_gap, skipWhitespace_cons (by decide)]
  | array before items =>
    refine ⟨before.bytes ++ items.textThen tail, by rw [Json.textThen, expectChar_cons],
      Or.inr ⟨items, ?_, rfl, clear⟩⟩
    rw [skipWhitespace_gap, items.front.visible]
  | _ => cases array

/-- **A literal that is parsed to a null pointer**: the array has as many elements as the literal has values,
but at least one, and each is what its value is read to. -/
theorem literal_read (floats : P.floats.ReadsTokens) (placed : start.Placed laid)
    (inPlace : ∀ call, start.Reaches P scan P.keys call → call.InPlace P.reg laid.room)
    (intrusive : of_.isIntrusiveArray = true) (found : metaGetDescriptor P.reg of_.type = some element)
    (array : value.IsArray) (clear : value.Clear P.reg of_.type)
    (reached : start.Reaches P scan P.keys (.field of_ heap (value.textThen tail) out))
    (completes : (ParseCall.field of_ heap (value.textThen tail) out).Completes P P.keys left rest) :
    laid.Holds of_ heap left out (max 1 value.elements.length) ∧
      ∀ k item, value.elements[k]? = some item → ElementRead P of_ element.size out k item left := by
  obtain ⟨has, owns⟩ := placed.reached floats.advances inPlace reached
  rw [laid.extent_intrusive has intrusive] at owns
  obtain ⟨inner, opened, literal⟩ := array.opened clear tail
  have front : Blocked (value.textThen tail) := value.front
  rw [← front.visible] at opened
  rcases completes_field completes with ⟨text, opened', flags, elements⟩ | ⟨plain, -⟩
  · obtain rfl : inner = text := Option.some.inj (opened.symm.trans opened')
    have toElements := reached.tail (.elements opened flags)
    have null := ((inPlace _ toElements).2 intrusive).2 rfl
    have start_ : laid.Holds of_ heap heap out 0 := laid.holds_null owns null
    rcases literal with ⟨behind, front, none_⟩ | ⟨items, front, same, clear⟩
    · rw [none_]
      exact ⟨elements_empty floats placed inPlace intrusive found front toElements start_ elements,
        fun k item at_ => nomatch at_⟩
    · obtain ⟨whole, reads⟩ := elements_read floats placed inPlace intrusive found items clear front toElements
        start_ elements
      have some_ : 1 ≤ items.values.length := by cases items <;> exact Nat.succ_pos _
      rw [same, max_eq_right some_]
      rw [Nat.zero_add] at whole
      refine ⟨whole, fun k item at_ => ?_⟩
      have read := reads k item at_
      rwa [Nat.zero_add] at read
  · rw [opened] at plain
    cases plain

end Rounds

/-! ### The array of an object -/

/-- **An array stays** while its pointer and its blocks are left alone. -/
def MetaParser.Laid.Keeps {P : MetaParser} (laid : P.Laid) (of_ : MetaField) : Prop :=
  ∀ {type : MetaDescriptor} {base heap heap' : BlockHeap} {location n : Nat}, P.reg.HasField of_ →
    of_.isIntrusiveArray = true → metaGetDescriptor P.reg of_.type = some type →
      laid.Holds of_ base heap location n → heap.live <:+ heap'.live →
        (∀ x, heap.Owns x → ¬ base.Owns x ∨ (location ≤ x ∧ x < location + 8) → heap'.mem x = heap.mem x) →
          (P.props of_).len heap'.mem (heap'.mem.readNat location 8) = n

/-- **An object whose first field is an intrusive array** that the text names with this literal, and does not
name again; `left` is the heap when the object is parsed to its end. -/
structure FirstArray (P : MetaParser) (scan : UnsetKeys) (start : ParseCall) (descriptor : MetaDescriptor)
    (object : Nat) (of_ : MetaField) (value : Json) (left : BlockHeap) : Prop where
  first : ∃ others, descriptor.fields = of_ :: others ∧ ∀ other ∈ others, 8 ≤ other.offset
  offset : of_.offset = 0
  intrusive : of_.isIntrusiveArray = true
  array : value.IsArray
  clear : value.Clear P.reg of_.type
  parsed : ∃ heap s tail rest, start.Reaches P scan P.keys (.members descriptor object heap s) ∧
    ParseCall.Next P scan P.keys (.members descriptor object heap s)
      (.field of_ heap (value.textThen tail) (object + of_.offset)) ∧
    (ParseCall.members descriptor object heap s).Completes P P.keys left rest ∧
    ∀ heap' s', ParseCall.Next P scan P.keys (.members descriptor object heap s)
      (.members descriptor object heap' s') → ¬ ParseCall.Names P scan P.keys descriptor object heap' s' of_

/-- **The array is the array of the text**: it has its length, its elements are what the values of the text are
read to, and integers are the numbers of the text. -/
structure ParsedArray (P : MetaParser) (of_ : MetaField) (element : MetaDescriptor) (location : Nat) (value : Json)
    (left : BlockHeap) : Prop where
  length : (P.props of_).len left.mem (left.mem.readNat location 8) = value.elements.length
  elements : ∀ i item, value.elements[i]? = some item →
    ElementRead P of_ element.size location i item left
  numbers : element.typeClass = .primitive → element.primitive.isInteger = true →
    ∀ i item, value.elements[i]? = some item → item.number =
      some (element.primitive.integerAt left.mem (elementAt left.mem location element.size i))

section Objects

variable {P : MetaParser} {laid : P.Laid} {scan : UnsetKeys} {start : ParseCall} {of_ : MetaField}
  {descriptor element : MetaDescriptor} {heap inner left : BlockHeap} {s text rest : List UInt8} {object : Nat}
  {value : Json}

/-- **The field is parsed, and then the members behind it.** -/
theorem members_named (floats : P.floats.Advances)
    (named : ParseCall.Next P scan P.keys (.members descriptor object heap s)
      (.field of_ heap text (object + of_.offset)))
    (completes : (ParseCall.members descriptor object heap s).Completes P P.keys left rest) :
    ∃ inner behind, (ParseCall.field of_ heap text (object + of_.offset)).Completes P P.keys inner behind ∧
      (inner = left ∨ ∃ later, ParseCall.Next P scan P.keys (.members descriptor object heap s)
          (.members descriptor object inner later) ∧
        (ParseCall.members descriptor object inner later).Completes P P.keys left rest) := by
  cases named with
  | field key found =>
    obtain ⟨name, text, key', member⟩ := completes_members floats completes
    obtain ⟨rfl, rfl⟩ := Prod.mk.inj (Option.some.inj (key.symm.trans key'))
    rcases member with ⟨missing, -⟩ | ⟨field, inner, behind, found', parsed, after⟩
    · rw [missing] at found
      cases found
    · obtain rfl : of_ = field := Option.some.inj (found.symm.trans found')
      refine ⟨inner, behind, parsed, ?_⟩
      rcases after with ⟨-, rfl⟩ | ⟨later, closed, separated, members⟩
      · exact Or.inl rfl
      · exact Or.inr ⟨later, .member key found parsed closed separated, members⟩

/-- **The members behind it** leave everything alone but the bytes behind the first field. -/
theorem FirstArray.frame (array : FirstArray P scan start descriptor object of_ value left)
    (floats : P.floats.Advances) (placed : start.Placed laid)
    (inPlace : ∀ call, start.Reaches P scan P.keys call → call.InPlace P.reg laid.room)
    (reached : start.Reaches P scan P.keys (.members descriptor object inner s))
    (completes : (ParseCall.members descriptor object inner s).Completes P P.keys left rest)
    (once : ¬ ParseCall.Names P scan P.keys descriptor object inner s of_) :
    inner.live <:+ left.live ∧ ∀ x, inner.Owns x → x < object + 8 ∨ object + descriptor.size ≤ x →
      left.mem x = inner.mem x := by
  obtain ⟨others, fields, behind⟩ := array.first
  have members := placed.reached floats inPlace reached
  obtain ⟨type, registered⟩ := members.1
  obtain ⟨live, same⟩ := ParseCall.Placed.leaves floats _ (fun call rest => inPlace call (reached.trans rest))
    members completes
  refine ⟨live, fun x owns outside => same x owns fun other names => ?_⟩
  have member := names.member
  have inside := laid.inside registered member
  rw [fields] at member
  rcases List.mem_cons.mp member with rfl | member
  · exact absurd names once
  · have := behind other member
    omega

/-- An integer depends on the bytes of its element. -/
theorem integerAt_congr {kind : MetaPrimitiveType} {m m' : Mem} {a b size : Nat} (fits : kind.width ≤ size)
    (same : m.load a size = m'.load b size) : kind.integerAt m a = kind.integerAt m' b := by
  have bytes : m.load a kind.width = m'.load b kind.width := by
    calc m.load a kind.width
        = ((m.load a size).drop 0).take kind.width := load_part (k := 0) (by omega)
      _ = ((m'.load b size).drop 0).take kind.width := by rw [same]
      _ = m'.load b kind.width := (load_part (k := 0) (by omega)).symm
  have number : m.readNat a kind.width = m'.readNat b kind.width := congrArg leValue bytes
  rw [MetaPrimitiveType.integerAt, MetaPrimitiveType.integerAt, Mem.readInt, Mem.readInt, number]

/-- **Parsed to its end**, the object has an array of as many elements as the literal has values, but at least
one, and each is what its value is read to. -/
theorem FirstArray.left_array (array : FirstArray P scan start descriptor object of_ value left)
    (floats : P.floats.ReadsTokens) (placed : start.Placed laid) (keeps : laid.Keeps of_)
    (inPlace : ∀ call, start.Reaches P scan P.keys call → call.InPlace P.reg laid.room)
    (found : metaGetDescriptor P.reg of_.type = some element) :
    (P.props of_).len left.mem (left.mem.readNat (object + of_.offset) 8) = max 1 value.elements.length ∧
      ∀ i item, value.elements[i]? = some item →
        ElementRead P of_ element.size (object + of_.offset) i item left := by
  obtain ⟨heap, s, tail, rest, reached, named, completes, once⟩ := array.parsed
  have toField := reached.tail named
  obtain ⟨has, owns⟩ := placed.reached floats.advances inPlace toField
  rw [laid.extent_intrusive has array.intrusive] at owns
  obtain ⟨inner, behind, parsed, after⟩ := members_named floats.advances named completes
  obtain ⟨holds, reads⟩ := literal_read floats placed inPlace array.intrusive found array.array array.clear toField
    parsed
  have held := holds element has array.intrusive found
  have grown := (laid.appends of_ element has array.intrusive found).grown held
  -- the members behind the array leave its pointer and its blocks alone
  have kept : inner.live <:+ left.live ∧ ∀ x, inner.Owns x →
      ¬ heap.Owns x ∨ (object + of_.offset ≤ x ∧ x < object + of_.offset + 8) → left.mem x = inner.mem x := by
    rcases after with rfl | ⟨later, next, members⟩
    · exact ⟨List.suffix_refl _, fun _ _ _ => rfl⟩
    · obtain ⟨live, same⟩ := array.frame floats.advances placed inPlace (reached.tail next) members
        (once inner later next)
      obtain ⟨-, region⟩ := placed.reached floats.advances inPlace reached
      refine ⟨live, fun x owned own => same x owned ?_⟩
      have offset := array.offset
      by_contra inside
      rcases own with new | pointer
      · exact new (region x (by omega) (by omega))
      · omega
  obtain ⟨live, same⟩ := kept
  refine ⟨keeps has array.intrusive found holds live same, fun i item at_ => ?_⟩
  have inside : i < max 1 value.elements.length :=
    lt_of_lt_of_le (List.getElem?_eq_some_iff.mp at_).1 (le_max_right _ _)
  have pointer : left.mem.readNat (object + of_.offset) 8 = inner.mem.readNat (object + of_.offset) 8 :=
    readNat_congr fun x low high =>
      same x ((owns x low high).mono grown.live.subset) (Or.inr ⟨low, high⟩)
  refine (reads i item at_).later ?_
  rw [elementAt, elementAt, pointer]
  exact load_congr fun x low high => by
    obtain ⟨owned, new⟩ := (laid.appends of_ element has array.intrusive found).slot held inside x low high
    exact same x owned (Or.inl new)

/-- **The array is the array of the text** if and only if the literal is not empty, and its numbers fit. -/
theorem parsedArray_iff (floats : P.floats.ReadsTokens) (long : 32 ≤ P.longBits) (bare : P.reg.FieldsOfObjects)
    (laid : P.Laid) (keeps : laid.Keeps of_) {expected : Nat} {start : BlockHeap} {json : List UInt8}
    (inPlace : ∀ call, (ParseCall.document expected start json).Reaches P scan P.keys call →
      call.InPlace P.reg laid.room)
    (array : FirstArray P scan (.document expected start json) descriptor object of_ value left)
    (found : metaGetDescriptor P.reg of_.type = some element) :
    ParsedArray P of_ element (object + of_.offset) value left ↔ value.elements ≠ [] ∧
      (element.typeClass = .primitive → element.primitive.isInteger = true →
        ∀ item ∈ value.elements, ∀ v, item.number = some v → element.primitive.Fits v) := by
  obtain ⟨length, elements⟩ := array.left_array floats trivial keeps inPlace found
  -- what is in memory for an integer is the number of the text exactly where that fits
  have stored : element.typeClass = .primitive → element.primitive.isInteger = true →
      ∀ i item, value.elements[i]? = some item → ∃ v, item.number = some v ∧
        (element.primitive.integerAt left.mem (elementAt left.mem (object + of_.offset) element.size i) = v ↔
          element.primitive.Fits v) := by
    intro kind integer i item at_
    obtain ⟨before, after, read, bytes⟩ := elements i item at_
    obtain ⟨v, denotes, fits⟩ := read_number long bare found kind integer read
    refine ⟨v, denotes, ?_⟩
    rw [integerAt_congr (laid.primitive found kind) bytes]
    exact fits
  constructor
  · intro parsed
    refine ⟨fun none_ => ?_, fun kind integer item member v denotes => ?_⟩
    · have := length.symm.trans parsed.length
      rw [none_] at this
      cases this
    · obtain ⟨i, at_⟩ := List.mem_iff_getElem?.mp member
      obtain ⟨v', denotes', fits⟩ := stored kind integer i item at_
      obtain rfl : v = v' := Option.some.inj (denotes.symm.trans denotes')
      have same := (denotes.symm.trans (parsed.numbers kind integer i item at_))
      exact fits.mp (Option.some.inj same).symm
  · rintro ⟨some_, fit⟩
    refine ⟨?_, elements, fun kind integer i item at_ => ?_⟩
    · rw [length]
      exact max_eq_right (List.length_pos_iff.mpr some_)
    · obtain ⟨v, denotes, fits⟩ := stored kind integer i item at_
      rw [fits.mpr (fit kind integer item (List.mem_of_getElem? at_) v denotes)]
      exact denotes

end Objects

/-! ### Arrays of the default procedures -/

section Default

variable {P : MetaParser} {A : BlockAlloc}

/-- The same contract for the same procedures and the same size. -/
def IntrusiveArrayProps.Appends.cast {props props' : IntrusiveArrayProps} {size size' : Nat} {room : Nat → Prop}
    (sameProps : props = props') (sameSize : size = size') (appends : props'.Appends size' room) :
    props.Appends size room := by
  subst sameProps sameSize
  exact appends

theorem cast_holds {props props' : IntrusiveArrayProps} {size size' : Nat} {room : Nat → Prop}
    (sameProps : props = props') (sameSize : size = size') (appends : props'.Appends size' room) :
    (appends.cast sameProps sameSize).Holds = appends.Holds := by
  subst sameProps sameSize
  rfl

/-- **Types whose arrays have the default procedures**, with room as long as the sizes do not wrap. -/
def MetaParser.defaultLaid (P : MetaParser) (props : ∀ {field}, P.reg.HasField field → P.props field = .default A)
    (flags : P.reg.FlagsValid)
    (inside : ∀ {type descriptor field}, metaGetDescriptor P.reg type = some descriptor →
      field ∈ descriptor.fields → field.offset + field.extent P.reg ≤ descriptor.size)
    (primitive : ∀ {type descriptor}, metaGetDescriptor P.reg type = some descriptor →
      descriptor.typeClass = .primitive → descriptor.primitive.width ≤ descriptor.size)
    (string : ∀ {type descriptor}, metaGetDescriptor P.reg type = some descriptor →
      descriptor.typeClass = .string → 8 ≤ descriptor.size) : P.Laid where
  room field n := DefaultRoom (P.reg.typeSize field.type) n
  flags := flags
  inside := inside
  primitive := primitive
  string := string
  appends field _ has _ found := (defaultAppends A (P.reg.typeSize field.type)).cast (props has)
    (typeSize_found found).symm

/-- What such procedures hold. -/
theorem default_holds {props : IntrusiveArrayProps} {size size' : Nat} {base heap : BlockHeap} {location n : Nat}
    (sameProps : props = .default A) (sameSize : size = size')
    (holds : ((defaultAppends A size').cast sameProps sameSize).Holds base heap location n) :
    DefaultArray size' base heap location n := by
  rw [cast_holds] at holds
  exact holds

/-- The default procedures keep their arrays. -/
theorem defaultLaid_keeps (props : ∀ {field}, P.reg.HasField field → P.props field = .default A)
    (flags inside primitive string) (of_ : MetaField) :
    (P.defaultLaid props flags inside primitive string).Keeps of_ := by
  intro type base heap heap' location n has intrusive found holds _ same
  have array : DefaultArray (P.reg.typeSize of_.type) base heap location n :=
    default_holds (props has) (typeSize_found found).symm (holds type has intrusive found)
  have length : (IntrusiveArrayProps.default A).len = metaArrayLen := rfl
  rw [props has, length]
  exact array.kept same

end Default

/-! ### A bag of numbers -/

/-- A bag is an array of numbers. -/
def bagTypes : List MetaDescriptor :=
  [defaultPrimitive "int32_t" 4 .i32,
   ⟨ascii "Bag", .object, 8, 0, .i8, [⟨ascii "cells", 1, 0, 2, 0, none⟩], .cstring⟩]

def bagRegistry : MetaRegistry := (metaRegisterAll (metaEmpty (.default .bump)) bagTypes).1

def bagParser : MetaParser := ⟨64, markFloats, bagRegistry, .bump, []⟩

theorem bagRegistry_lists : bagRegistry.Lists (metaRegisterAll (metaEmpty (.default .bump)) bagTypes).2 :=
  metaRegisterAll_lists bagTypes (metaEmpty_lists _)

theorem bag_types : ∀ type ∈ (metaRegisterAll (metaEmpty (.default .bump)) bagTypes).2,
    (∀ field ∈ type.fields, field.offset + field.extent bagRegistry ≤ type.size ∧ field.flags = 2 ∧
      field.intrusiveProps.isNone = true) ∧
      (type.typeClass = .primitive → type.primitive.width ≤ type.size) ∧ type.typeClass ≠ .string ∧
        (type.typeClass ≠ .object → type.fields.length = 0) := by
  decide +kernel

theorem bag_props {field : MetaField} (has : bagParser.reg.HasField field) :
    bagParser.props field = .default .bump := by
  obtain ⟨_, _, found, member⟩ := has
  have none_ := ((bag_types _ (metaGetDescriptor_some bagRegistry_lists found).1).1 _ member).2.2
  rw [MetaParser.props, Option.isNone_iff_eq_none.mp none_]
  rfl

theorem bagRegistry_valid : bagRegistry.FlagsValid := fun _ _ found _ member =>
  Or.inr (Or.inr ((bag_types _ (metaGetDescriptor_some bagRegistry_lists found).1).1 _ member).2.1)

theorem bagRegistry_bare : bagRegistry.FieldsOfObjects := fun _ _ found other =>
  List.length_eq_zero_iff.mp ((bag_types _ (metaGetDescriptor_some bagRegistry_lists found).1).2.2.2 other)

/-- Bags are laid out as the compiler does it. -/
def bagLaid : bagParser.Laid := bagParser.defaultLaid bag_props bagRegistry_valid
  (fun found member => ((bag_types _ (metaGetDescriptor_some bagRegistry_lists found).1).1 _ member).1)
  (fun found => (bag_types _ (metaGetDescriptor_some bagRegistry_lists found).1).2.1)
  fun found kind => absurd kind (bag_types _ (metaGetDescriptor_some bagRegistry_lists found).1).2.2.1

def bagField : MetaField := ⟨ascii "cells", 1, 0, 2, 0, none⟩

def bagNumber : MetaDescriptor := { defaultPrimitive "int32_t" 4 .i32 with id := 1 }

def bagDescriptor : MetaDescriptor := ⟨ascii "Bag", .object, 8, 2, .i8, [bagField], .cstring⟩

/-- The heap with the new bag. -/
def bagHeap : BlockHeap := zeroedBlock (⟨fun _ => 0, [(1, 8)]⟩, 1) 8

/-- The members of the bag of 7, and what is behind the first. -/
def bagMembers : List UInt8 := ascii "\"--vd-meta-type-name--\":\"Bag\",\"cells\":[7]\x7d"

def bagCells : List UInt8 := ascii "\"cells\":[7]\x7d"

def sevenScalar : Scalar := ⟨ascii "7", by decide +kernel, by decide +kernel⟩

/-- The array of 7. -/
def sevenArray : Json := .array .empty (.last (.scalar sevenScalar) .empty)

theorem bag_found : metaGetDescriptor bagRegistry 2 = some bagDescriptor := rfl

theorem bag_hint_unknown : findField bagDescriptor typeNameKey = none := rfl

theorem bag_field : findField bagDescriptor (ascii "cells") = some bagField := rfl

/-- The parse of the bag, function by function: the type of the text, its brace, the two members with
their keys, the bracket, and what is behind the array and behind its element. -/
theorem bag_parse :
    jsonGetObjectTypeWith bagParser bagParser.keys 0 (cellsText "Bag" (ascii "[7]")) = some (.ok 2) ∧
    expectChar (charByte '\x7b') (skipWhitespace (cellsText "Bag" (ascii "[7]"))) = some bagMembers ∧
    memberKey bagParser.keys bagMembers = some (typeNameKey, ascii "\"Bag\",\"cells\":[7]\x7d") ∧
    jsonSkipValue (ascii "\"Bag\",\"cells\":[7]\x7d") = (true, bagCells) ∧
    memberKey bagParser.keys bagCells = some (ascii "cells", ascii "[7]\x7d") ∧
    expectChar (charByte '[') (skipWhitespace (ascii "[7]\x7d")) = some (ascii "7]\x7d") ∧
    (parseJsonField bagParser (objectProc bagParser bagParser.keys) bagField bagHeap
      (ascii "[7]\x7d") 1).accepted.map (·.2) = some (ascii "\x7d") ∧
    (intrusivePart bagParser (objectProc bagParser bagParser.keys) bagField bagHeap
      (ascii "7]\x7d") 1).accepted.map (·.2) = some (ascii "]\x7d") ∧
    (parseMembersWith bagParser bagParser.keys (objectProc bagParser bagParser.keys) bagDescriptor 1
      (bagCells.length + 1) bagHeap bagCells).accepted.isSome = true := by
  decide +kernel

/-- What a call of the parse of the bag looks like. -/
def BagCall : ParseCall → Prop
  | .document expected heap json => expected = 0 ∧ heap = ⟨fun _ => 0, []⟩ ∧ json = cellsText "Bag" (ascii "[7]")
  | .object heap s type out => heap = bagHeap ∧ s = cellsText "Bag" (ascii "[7]") ∧ type = 2 ∧ out = 1
  | .members descriptor out heap s =>
    descriptor = bagDescriptor ∧ out = 1 ∧ heap = bagHeap ∧ (s = bagMembers ∨ s = bagCells)
  | .field of_ heap s out => of_ = bagField ∧ heap = bagHeap ∧ s = ascii "[7]\x7d" ∧ out = 1
  | .elements of_ out i heap s => of_ = bagField ∧ out = 1 ∧ i = 0 ∧ heap = bagHeap ∧ s = ascii "7]\x7d"
  | .fixed _ _ _ _ _ => False
  | .intrusive of_ _ s _ => of_ = bagField ∧ s = ascii "7]\x7d"
  | .value _ _ _ s _ => s = ascii "7]\x7d"

/-- The result that was accepted, and its rest. -/
theorem accepted_rest {result : ParseResult} {heap : BlockHeap} {behind rest : List UInt8}
    (parsed : result = some (heap, .ok behind)) (known : result.accepted.map (·.2) = some rest) :
    behind = rest := by
  rw [parsed] at known
  exact Option.some.inj known

theorem BagCall.next {call call' : ParseCall} (bag : BagCall call)
    (next : call.Next bagParser bagParser.keys bagParser.keys call') : BagCall call' := by
  obtain ⟨scannedBag, openedBag, hintKey, skippedHint, cellsKey, bracket, behindArray, behindElement, -⟩ :=
    bag_parse
  cases next with
  | @document expected heap json type descriptor granted scanned found alloc =>
    obtain ⟨rfl, rfl, rfl⟩ := bag
    obtain rfl := Except.ok.inj (Option.some.inj (scannedBag.symm.trans scanned))
    obtain rfl := Option.some.inj (bag_found.symm.trans found)
    have first : bagParser.alloc.alloc ⟨fun _ => 0, []⟩ 8 = some (⟨fun _ => 0, [(1, 8)]⟩, 1) := rfl
    obtain rfl := Option.some.inj (first.symm.trans alloc)
    exact ⟨rfl, rfl, rfl, rfl⟩
  | object found opened =>
    obtain ⟨rfl, rfl, rfl, rfl⟩ := bag
    obtain rfl := Option.some.inj (bag_found.symm.trans found)
    obtain rfl := Option.some.inj (openedBag.symm.trans opened)
    exact ⟨rfl, rfl, rfl, Or.inl rfl⟩
  | unknown key missing skipped =>
    obtain ⟨rfl, rfl, rfl, rfl | rfl⟩ := bag
    · obtain ⟨rfl, rfl⟩ := Prod.mk.inj (Option.some.inj (hintKey.symm.trans key))
      obtain ⟨-, rfl⟩ := Prod.mk.inj (skippedHint.symm.trans skipped)
      exact ⟨rfl, rfl, rfl, Or.inr rfl⟩
    · obtain ⟨rfl, rfl⟩ := Prod.mk.inj (Option.some.inj (cellsKey.symm.trans key))
      cases bag_field.symm.trans missing
  | field key found =>
    obtain ⟨rfl, rfl, rfl, rfl | rfl⟩ := bag
    · obtain ⟨rfl, rfl⟩ := Prod.mk.inj (Option.some.inj (hintKey.symm.trans key))
      cases bag_hint_unknown.symm.trans found
    · obtain ⟨rfl, rfl⟩ := Prod.mk.inj (Option.some.inj (cellsKey.symm.trans key))
      obtain rfl := Option.some.inj (bag_field.symm.trans found)
      exact ⟨rfl, rfl, rfl, rfl⟩
  | member key found parsed closed =>
    obtain ⟨rfl, rfl, rfl, rfl | rfl⟩ := bag
    · obtain ⟨rfl, rfl⟩ := Prod.mk.inj (Option.some.inj (hintKey.symm.trans key))
      cases bag_hint_unknown.symm.trans found
    · obtain ⟨rfl, rfl⟩ := Prod.mk.inj (Option.some.inj (cellsKey.symm.trans key))
      obtain rfl := Option.some.inj (bag_field.symm.trans found)
      obtain rfl := accepted_rest parsed behindArray
      cases closed
  | elements opened =>
    obtain ⟨rfl, rfl, rfl, rfl⟩ := bag
    obtain rfl := Option.some.inj (bracket.symm.trans opened)
    exact ⟨rfl, rfl, rfl, rfl, rfl⟩
  | single plain =>
    obtain ⟨rfl, rfl, rfl, rfl⟩ := bag
    cases plain
  | fixed fixed =>
    obtain ⟨rfl, rfl, rfl, rfl, rfl⟩ := bag
    cases fixed
  | intrusive parsed =>
    obtain ⟨rfl, rfl, rfl, rfl, rfl⟩ := bag
    cases parsed
    exact ⟨rfl, rfl⟩
  | element parsed parsed' closed =>
    obtain ⟨rfl, rfl, rfl, rfl, rfl⟩ := bag
    cases parsed
    obtain rfl := accepted_rest parsed' behindElement
    cases closed
  | fixedValue => exact bag.elim
  | added => exact bag.2
  | nested brace =>
    obtain rfl : _ = ascii "7]\x7d" := bag
    cases brace

/-- The literal of the bag is in place. -/
theorem BagCall.inPlace {call : ParseCall} (bag : BagCall call) : call.InPlace bagParser.reg bagLaid.room := by
  cases call with
  | field of_ heap s out =>
    obtain ⟨rfl, rfl, rfl, rfl⟩ := bag
    intro plain
    cases plain
  | elements of_ out i heap s =>
    obtain ⟨rfl, rfl, rfl, rfl, rfl⟩ := bag
    have null : bagHeap.mem.readNat 1 8 = 0 := by decide +kernel
    have room : DefaultRoom 4 0 := ⟨by decide, by decide⟩
    exact ⟨rfl, fun _ => ⟨room, fun _ => null⟩⟩
  | _ => trivial

/-- The array of the bag of 7. -/
theorem bag_array : ∃ left, FirstArray bagParser bagParser.keys
    (.document 0 ⟨fun _ => 0, []⟩ (cellsText "Bag" (ascii "[7]"))) bagDescriptor 1 bagField sevenArray left := by
  obtain ⟨scannedBag, openedBag, hintKey, skippedHint, cellsKey, -, behindArray, -, parsed⟩ := bag_parse
  have alloc : bagParser.alloc.alloc ⟨fun _ => 0, []⟩ bagDescriptor.size = some (⟨fun _ => 0, [(1, 8)]⟩, 1) := rfl
  have toObject : ParseCall.Next bagParser bagParser.keys bagParser.keys
      (.document 0 ⟨fun _ => 0, []⟩ (cellsText "Bag" (ascii "[7]")))
      (.object bagHeap (cellsText "Bag" (ascii "[7]")) 2 1) := .document scannedBag bag_found alloc
  have toHint : ParseCall.Next bagParser bagParser.keys bagParser.keys
      (.object bagHeap (cellsText "Bag" (ascii "[7]")) 2 1) (.members bagDescriptor 1 bagHeap bagMembers) :=
    .object bag_found openedBag
  have toCells : ParseCall.Next bagParser bagParser.keys bagParser.keys
      (.members bagDescriptor 1 bagHeap bagMembers) (.members bagDescriptor 1 bagHeap bagCells) :=
    .unknown hintKey bag_hint_unknown skippedHint
  obtain ⟨⟨left, rest⟩, accepted⟩ := Option.isSome_iff_exists.mp parsed
  refine ⟨left, ⟨⟨[], rfl, fun _ member => nomatch member⟩, rfl, rfl, trivial, trivial,
    bagHeap, bagCells, ascii "\x7d", rest, ((ReflTransGen.single toObject).tail toHint).tail toCells,
    .field cellsKey bag_field, accepted_eq_some.mp accepted, fun heap' s' next => ?_⟩⟩
  -- the array is the last member
  cases next with
  | unknown key missing =>
    obtain ⟨rfl, rfl⟩ := Prod.mk.inj (Option.some.inj (cellsKey.symm.trans key))
    cases bag_field.symm.trans missing
  | member key found parsed closed =>
    obtain ⟨rfl, rfl⟩ := Prod.mk.inj (Option.some.inj (cellsKey.symm.trans key))
    obtain rfl := Option.some.inj (bag_field.symm.trans found)
    obtain rfl := accepted_rest parsed behindArray
    cases closed

/-- The array of the bag of 7 is the array of the text. -/
theorem parsedArray_seven : ∃ left, ParsedArray bagParser bagField bagNumber 1 sevenArray left := by
  obtain ⟨left, array⟩ := bag_array
  have inPlace : ∀ call, (ParseCall.document 0 ⟨fun _ => 0, []⟩ (cellsText "Bag" (ascii "[7]"))).Reaches bagParser
      bagParser.keys bagParser.keys call → call.InPlace bagParser.reg bagLaid.room := by
    intro call reached
    have bag : BagCall call := by
      induction reached with
      | refl => exact ⟨rfl, rfl, rfl⟩
      | tail _ next ih => exact ih.next next
    exact bag.inPlace
  refine ⟨left, (parsedArray_iff markFloats_readsTokens (by decide) bagRegistry_bare bagLaid
    (defaultLaid_keeps bag_props _ _ _ _ bagField) inPlace array rfl).mpr ⟨List.cons_ne_nil _ _, ?_⟩⟩
  intro _ _ item member v denotes
  obtain rfl := List.mem_singleton.mp member
  have seven : Json.number (.scalar sevenScalar) = some 7 := by decide +kernel
  obtain rfl := Option.some.inj (seven.symm.trans denotes)
  exact ⟨by decide, by decide⟩

/-- **The array of an empty literal has length 1.** -/
theorem empty_array_filled :
    (metaParseJsonWith bagParser bagParser.keys bagParser.keys 0 ⟨fun _ => 0, []⟩
      (cellsText "Bag" (ascii "[]"))).map (fun parsed => (parsed.ret, parsed.object.map fun object =>
        metaArrayLen parsed.heap.mem (parsed.heap.mem.readNat object 8))) = some (0, some 1) := by
  decide +kernel

end Vaudou
