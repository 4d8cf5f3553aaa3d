/-
**Two runs of the parser.**

Two runs with the same text, on heaps with the same blocks and with allocators that grant the same blocks, make
the same calls at the same addresses (`ParseCall.on`). `ParseCall.SetBelow` are the leaves that a call sets, in
all that it leads to, and `ParseCall.ElementsSet` says that it sets all leaves of every element that is added.

The runs are orderly (`ParseCall.Orderly`): array literals are for arrays whose offset is 0, intrusive arrays
are given by literals only and have room, and elements hold no arrays themselves.

* `ParseCall.twin` — a call that is completed in the first run is completed in the second, and keeps the
  invariant of the two (`TwinRun`), by induction on the text that is left.
-/

import Vaudou.Meta.CompletedCalls
import Vaudou.Meta.TwinArrays

namespace Vaudou

open Vaudou.Memory Vaudou.Text Relation

/-- The parser with another allocator, for which it has the default procedures of arrays. -/
def MetaParser.on (P : MetaParser) (A : BlockAlloc) : MetaParser :=
  { P with alloc := A, reg := { P.reg with props := .default A } }

/-- The heap that a call starts with. -/
def ParseCall.heap : ParseCall → BlockHeap
  | .document _ heap _ | .object heap _ _ _ | .members _ _ heap _ | .field _ heap _ _ | .elements _ _ _ heap _
  | .fixed _ _ heap _ _ | .intrusive _ heap _ _ | .value _ _ heap _ _ => heap

/-- The same call on another heap. -/
def ParseCall.on (heap : BlockHeap) : ParseCall → ParseCall
  | .document expected _ json => .document expected heap json
  | .object _ s type out => .object heap s type out
  | .members descriptor out _ s => .members descriptor out heap s
  | .field of_ _ s out => .field of_ heap s out
  | .elements of_ out i _ s => .elements of_ out i heap s
  | .fixed of_ i _ s out => .fixed of_ i heap s out
  | .intrusive of_ _ s out => .intrusive of_ heap s out
  | .value type descriptor _ s out => .value type descriptor heap s out

/-- The leaf of a value that is no object. A character is set from its quote on. -/
def ParseCall.Sets : ParseCall → LeafKind → Nat → Prop
  | .value _ descriptor _ s out, kind, a => peekChar (charByte '\x7b') s = false ∧ a = out ∧
    ((descriptor.typeClass = .primitive ∧ kind = .bytes descriptor.primitive.width ∧
        (descriptor.primitive = .char8 → (expectChar (charByte '"') s).isSome = true)) ∨
      (descriptor.typeClass = .string ∧ descriptor.string = .cstring ∧ kind = .string ∧
        (parseJsonString s).isSome = true))
  | _, _, _ => False

/-- **A call is orderly**: array literals are for arrays whose offset is 0, an intrusive array is given by a
literal, it has room for its elements, and these hold no arrays. -/
def ParseCall.Orderly (reg : MetaRegistry) : ParseCall → Prop
  | .field of_ _ s _ => expectChar (charByte '[') (skipWhitespace s) = none → of_.isIntrusiveArray = false
  | .elements of_ _ _ _ _ => of_.offset = 0
  | .intrusive of_ heap _ out =>
    DefaultRoom (reg.typeSize of_.type) (metaArrayLen heap.mem (heap.mem.readNat out 8)) ∧
      ∀ element offset, ¬ reg.Leaf of_.type (.array element) offset
  | _ => True

/-- The leaves that the call may set are among these. -/
def ParseCall.Fits (reg : MetaRegistry) (cells : LeafKind → Nat → Prop) : ParseCall → Prop
  | .document _ _ _ => False
  | .object _ _ type out => ∀ kind a, reg.CellsAt type out kind a → cells kind a
  | .members descriptor out _ _ => ∃ type, metaGetDescriptor reg type = some descriptor ∧
    ∀ kind a, reg.CellsAt type out kind a → cells kind a
  | .field of_ _ _ out => reg.HasField of_ ∧ ∀ kind offset, of_.Leaf reg kind offset → cells kind (out + offset)
  | .elements of_ out _ _ _ => reg.HasField of_ ∧ of_.flags ≠ 0 ∧
    ∀ kind offset, of_.Leaf reg kind offset → cells kind (out + offset)
  | .fixed of_ _ _ _ out => reg.HasField of_ ∧ of_.isFixedArray = true ∧ of_.offset = 0 ∧
    ∀ kind offset, of_.Leaf reg kind offset → cells kind (out + offset)
  | .intrusive of_ _ _ out => reg.HasField of_ ∧ of_.isIntrusiveArray = true ∧ of_.offset = 0 ∧
    cells (.array of_.type) out
  | .value type descriptor _ _ out => metaGetDescriptor reg type = some descriptor ∧
    ∀ kind a, reg.CellsAt type out kind a → cells kind a

section Calls

variable (P : MetaParser) (scan parse : UnsetKeys)

/-- **The leaves that a call sets**, in all that it leads to. -/
def ParseCall.SetBelow (call : ParseCall) (kind : LeafKind) (a : Nat) : Prop :=
  ∃ call', call.Reaches P scan parse call' ∧ call'.Sets kind a

/-- The element that a call adds is all set. -/
def ParseCall.ElementSet : ParseCall → Prop
  | .intrusive of_ heap s out => ∀ descriptor place, metaGetDescriptor P.reg of_.type = some descriptor →
    fieldArrayAdd P of_ descriptor.size heap out = some place → ∀ kind offset, P.reg.Leaf of_.type kind offset →
      (ParseCall.value of_.type descriptor place.1 s place.2).SetBelow P scan parse kind (place.2 + offset)
  | _ => True

/-- **All elements that are added are all set.** -/
def ParseCall.ElementsSet (call : ParseCall) : Prop :=
  ∀ call', call.Reaches P scan parse call' → call'.ElementSet P scan parse

variable {P scan parse} {call first second : ParseCall} {kind : LeafKind} {a : Nat}

theorem setBelow_one (next : ∀ call', call.Next P scan parse call' ↔ call' = first) :
    call.SetBelow P scan parse kind a ↔ call.Sets kind a ∨ first.SetBelow P scan parse kind a := by
  unfold ParseCall.SetBelow
  simp only [reaches_one next, or_and_right, exists_or, exists_eq_left]

theorem setBelow_two (next : ∀ call', call.Next P scan parse call' ↔ call' = first ∨ call' = second) :
    call.SetBelow P scan parse kind a ↔
      call.Sets kind a ∨ first.SetBelow P scan parse kind a ∨ second.SetBelow P scan parse kind a := by
  unfold ParseCall.SetBelow
  simp only [reaches_two next, or_and_right, exists_or, exists_eq_left]

theorem elementsSet_one (next : ∀ call', call.Next P scan parse call' ↔ call' = first) :
    call.ElementsSet P scan parse ↔ call.ElementSet P scan parse ∧ first.ElementsSet P scan parse := by
  unfold ParseCall.ElementsSet
  simp only [reaches_one next, or_imp, forall_and, forall_eq]

theorem elementsSet_two (next : ∀ call', call.Next P scan parse call' ↔ call' = first ∨ call' = second) :
    call.ElementsSet P scan parse ↔ call.ElementSet P scan parse ∧ first.ElementsSet P scan parse ∧
      second.ElementsSet P scan parse := by
  unfold ParseCall.ElementsSet
  simp only [reaches_two next, or_imp, forall_and, forall_eq]

end Calls

/-! ### Values -/

/-- The leaves of a registry do not depend on the procedures of arrays. -/
theorem MetaRegistry.Leaf.with_props {reg : MetaRegistry} {type offset : Nat} {kind : LeafKind}
    (props : IntrusiveArrayProps) (leaf : reg.Leaf type kind offset) :
    MetaRegistry.Leaf { reg with props := props } type kind offset := by
  induction leaf with
  | primitive found kind => exact .primitive found kind
  | string found kind cstring => exact .string found kind cstring
  | slice found kind slice => exact .slice found kind slice
  | raw found kind => exact .raw found kind
  | array found member intrusive => exact .array found member intrusive
  | field found member plain starts _ ih => exact .field found member plain starts ih

theorem leaf_on {P : MetaParser} {type offset : Nat} {kind : LeafKind} (A : BlockAlloc) :
    (P.on A).reg.Leaf type kind offset ↔ P.reg.Leaf type kind offset :=
  ⟨fun leaf => leaf.with_props P.reg.props, fun leaf => leaf.with_props (.default A)⟩

/-- **The value of a primitive type** is written, whatever is in memory. -/
theorem parsePrimitive_writes (P : MetaParser) (s : List UInt8) (kind : MetaPrimitiveType)
    (set : kind = .char8 → (expectChar (charByte '"') s).isSome = true) :
    ∃ bytes rest, bytes.length = kind.width ∧
      ∀ (m : Mem) (x : Nat), parsePrimitive P m s x kind = (m.store x bytes, rest) := by
  cases kind with
  | i8 | i16 | i32 | i64 => exact ⟨_, _, leBytes_length _ _, fun _ _ => rfl⟩
  | u8 | u16 | u32 | u64 | f32 | f64 => exact ⟨_, _, leBytes_length _ _, fun _ _ => rfl⟩
  | char8 =>
    obtain ⟨inner, opened⟩ := Option.isSome_iff_exists.mp (set rfl)
    cases closed : expectChar (charByte '"') (readChar inner).2 with
    | none => exact ⟨[(readChar inner).1], s, rfl, fun m x => by simp only [parsePrimitive, opened, closed]⟩
    | some rest => exact ⟨[(readChar inner).1], rest, rfl, fun m x => by simp only [parsePrimitive, opened, closed]⟩

/-- A character that has no quote is not written. -/
theorem parsePrimitive_skips (P : MetaParser) {s : List UInt8} (plain : expectChar (charByte '"') s = none)
    (m : Mem) (x : Nat) : parsePrimitive P m s x .char8 = (m, s) := by
  simp only [parsePrimitive, plain]

theorem parsePrimitive_on (P : MetaParser) (A : BlockAlloc) (m : Mem) (s : List UInt8) (x : Nat)
    (kind : MetaPrimitiveType) : parsePrimitive (P.on A) m s x kind = parsePrimitive P m s x kind := by
  cases kind <;> rfl

/-- The content of a string has no 0. -/
theorem parseJsonString_nonzero {s key rest : List UInt8} (string : parseJsonString s = some (key, rest)) :
    0 ∉ key := by
  obtain ⟨inner, -, bodies⟩ := Option.bind_eq_some_iff.mp string
  obtain ⟨⟨whole, behind⟩, -, same⟩ := Option.map_eq_some_iff.mp bodies
  obtain ⟨rfl, -⟩ := Prod.mk.inj same
  exact fun member => absurd (List.mem_takeWhile_imp member) (by decide)

section Twin

variable {P : MetaParser} {A B : BlockAlloc} {scan parse : UnsetKeys} {R : UInt8 → UInt8 → Prop}
  {region : Nat × Nat} {cells : LeafKind → Nat → Prop} {σ : TwinState} {heap' : BlockHeap}
  {s rest : List UInt8} {type out i : Nat} {descriptor : MetaDescriptor} {of_ : MetaField} {call : ParseCall}

/-- **What a completed call does in both runs.** -/
def ParseCall.Twin (P : MetaParser) (A B : BlockAlloc) (scan parse : UnsetKeys) (R : UInt8 → UInt8 → Prop)
    (call : ParseCall) : Prop :=
  ∀ region cells σ, Twins P.reg R region cells σ → call.heap = σ.heap → call.Fits P.reg cells →
    ∀ heap' rest, call.Completes (P.on A) parse heap' rest →
      ∃ σ', σ'.heap = heap' ∧ (call.on σ.twin).Completes (P.on B) parse σ'.twin rest ∧
        TwinRun P.reg R region cells (call.SetBelow (P.on A) scan parse) (call.ElementsSet (P.on A) scan parse) σ σ'

/-- A value that is no object leads to nothing more. -/
theorem plain_sets (plain : peekChar (charByte '\x7b') s = false) (heap : BlockHeap) (kind : LeafKind) (a : Nat) :
    (ParseCall.value type descriptor heap s out).SetBelow P scan parse kind a ↔
      (ParseCall.value type descriptor heap s out).Sets kind a := by
  unfold ParseCall.SetBelow
  simp only [reaches_value plain, exists_eq_left]

theorem plain_elementsSet (plain : peekChar (charByte '\x7b') s = false) (heap : BlockHeap) :
    (ParseCall.value type descriptor heap s out).ElementsSet P scan parse := by
  intro call' reached
  rw [(reaches_value plain).mp reached]
  trivial

/-- A value that is not set. -/
theorem twin_unset (plain : peekChar (charByte '\x7b') s = false) (twins : Twins P.reg R region cells σ)
    (none_ : ∀ kind a, ¬ (ParseCall.value type descriptor σ.heap s out).Sets kind a) :
    TwinRun P.reg R region cells ((ParseCall.value type descriptor σ.heap s out).SetBelow (P.on A) scan parse)
      ((ParseCall.value type descriptor σ.heap s out).ElementsSet (P.on A) scan parse) σ σ :=
  (TwinRun.refl twins).congr
    (fun kind a => ⟨fun absurd => absurd.elim, fun sets => none_ kind a ((plain_sets plain σ.heap kind a).mp sets)⟩)
    ⟨fun _ => plain_elementsSet plain σ.heap, fun _ => trivial⟩

/-- A value whose leaf is set. -/
theorem twin_set {kind : LeafKind} {σ' : TwinState} (plain : peekChar (charByte '\x7b') s = false)
    (sets : ∀ kind' a, (ParseCall.value type descriptor σ.heap s out).Sets kind' a ↔ kind' = kind ∧ a = out)
    (run : TwinRun P.reg R region cells (fun kind' a => kind' = kind ∧ a = out) True σ σ') :
    TwinRun P.reg R region cells ((ParseCall.value type descriptor σ.heap s out).SetBelow (P.on A) scan parse)
      ((ParseCall.value type descriptor σ.heap s out).ElementsSet (P.on A) scan parse) σ σ' :=
  run.congr (fun kind' a => ((plain_sets plain σ.heap kind' a).trans (sets kind' a)).symm)
    ⟨fun _ => plain_elementsSet plain σ.heap, fun _ => trivial⟩

/-- **The value of a primitive type.** -/
theorem twin_primitive (described : P.reg.Described) (plain : peekChar (charByte '\x7b') s = false)
    (twins : Twins P.reg R region cells σ)
    (cell : cells (.bytes descriptor.primitive.width) out) (class_ : descriptor.typeClass = .primitive)
    (completes : (ParseCall.value type descriptor σ.heap s out).Completes (P.on A) parse heap' rest) :
    ∃ σ', σ'.heap = heap' ∧
      (ParseCall.value type descriptor σ.twin s out).Completes (P.on B) parse σ'.twin rest ∧
      TwinRun P.reg R region cells ((ParseCall.value type descriptor σ.heap s out).SetBelow (P.on A) scan parse)
        ((ParseCall.value type descriptor σ.heap s out).ElementsSet (P.on A) scan parse) σ σ' := by
  simp only [ParseCall.Completes, parseJsonDescriptor, plain, Bool.false_eq_true, if_false, Option.bind_some,
    class_, parsePrimitive_on] at completes ⊢
  by_cases set : descriptor.primitive = .char8 → (expectChar (charByte '"') s).isSome = true
  · obtain ⟨bytes, behind, length, writes⟩ := parsePrimitive_writes P s descriptor.primitive set
    rw [writes] at completes
    cases completes
    have change : ∀ m : Mem, ChangedWithin m (m.store out bytes) out descriptor.primitive.width := fun m => by
      have within := store_changedWithin m out bytes
      rwa [length] at within
    have same : Same (σ.heap.mem.store out bytes) (σ.twin.mem.store out bytes) out descriptor.primitive.width := by
      intro x low high
      obtain ⟨j, rfl⟩ : ∃ j, x = out + j := ⟨x - out, by omega⟩
      have inside : j < bytes.length := by omega
      rw [store_inside inside, store_inside inside]
    refine ⟨_, rfl, ?_, twin_set plain (fun kind' a => ?_)
      (twins.write described cell (change σ.heap.mem) (change σ.twin.mem) same)⟩
    · rw [writes]
      rfl
    constructor
    · rintro ⟨-, at_, ⟨-, kind, -⟩ | ⟨string, -⟩⟩
      · exact ⟨kind, at_⟩
      · exact absurd (class_.symm.trans string) (by decide)
    · rintro ⟨kind, at_⟩
      exact ⟨plain, at_, Or.inl ⟨class_, kind, set⟩⟩
  · obtain ⟨char8, missing⟩ := Classical.not_imp.mp set
    have missing := Option.not_isSome_iff_eq_none.mp missing
    rw [char8, parsePrimitive_skips P missing] at completes
    cases completes
    refine ⟨σ, rfl, by rw [char8, parsePrimitive_skips P missing], twin_unset plain twins fun kind' a => ?_⟩
    rintro ⟨-, -, ⟨-, -, quoted⟩ | ⟨string, -⟩⟩
    · exact set quoted
    · exact absurd (class_.symm.trans string) (by decide)

/-- **A string.** -/
theorem twin_string (described : P.reg.Described) (same : A.SameGrants B)
    (plain : peekChar (charByte '\x7b') s = false) (twins : Twins P.reg R region cells σ)
    (cell : descriptor.string = .cstring → cells .string out) (class_ : descriptor.typeClass = .string)
    (completes : (ParseCall.value type descriptor σ.heap s out).Completes (P.on A) parse heap' rest) :
    ∃ σ', σ'.heap = heap' ∧
      (ParseCall.value type descriptor σ.twin s out).Completes (P.on B) parse σ'.twin rest ∧
      TwinRun P.reg R region cells ((ParseCall.value type descriptor σ.heap s out).SetBelow (P.on A) scan parse)
        ((ParseCall.value type descriptor σ.heap s out).ElementsSet (P.on A) scan parse) σ σ' := by
  simp only [ParseCall.Completes, parseJsonDescriptor, plain, Bool.false_eq_true, if_false, Option.bind_some,
    class_] at completes ⊢
  have notPrimitive : descriptor.typeClass ≠ .primitive := by
    rw [class_]
    decide
  cases kinds : descriptor.string with
  | slice =>
    rw [kinds] at completes
    cases completes
    refine ⟨σ, rfl, rfl, twin_unset plain twins fun kind' a => ?_⟩
    rintro ⟨-, -, ⟨primitive, -⟩ | ⟨-, cstring, -⟩⟩
    · exact notPrimitive primitive
    · exact absurd (kinds.symm.trans cstring) (by decide)
  | cstring =>
    rw [kinds] at completes
    simp only [parseCString] at completes ⊢
    cases string : parseJsonString s with
    | none =>
      rw [string] at completes
      cases completes
      refine ⟨σ, rfl, rfl, twin_unset plain twins fun kind' a => ?_⟩
      rintro ⟨-, -, ⟨primitive, -⟩ | ⟨-, -, -, quoted⟩⟩
      · exact notPrimitive primitive
      · rw [string] at quoted
        cases quoted
    | some result =>
      obtain ⟨key, behind⟩ := result
      rw [string] at completes
      obtain ⟨⟨granted, p⟩, alloc, outcome⟩ := Option.map_eq_some_iff.mp completes
      obtain ⟨rfl, behind_⟩ := Prod.mk.inj outcome
      obtain ⟨granted', alloc', -⟩ := same.granted twins.live alloc
      have alloc : A.alloc σ.heap (key.length + 1) = some (granted, p) := alloc
      refine ⟨_, rfl, ?_, twin_set plain (fun kind' a => ?_)
        (twins.string described (cell kinds) alloc alloc' (parseJsonString_nonzero string))⟩
      · show (B.alloc σ.twin (key.length + 1)).map _ = _
        rw [alloc', ← behind_]
        rfl
      · constructor
        · rintro ⟨-, at_, ⟨primitive, -⟩ | ⟨-, -, kind, -⟩⟩
          · exact absurd primitive notPrimitive
          · exact ⟨kind, at_⟩
        · rintro ⟨kind, at_⟩
          exact ⟨plain, at_, Or.inr ⟨class_, kinds, kind, by rw [string]; rfl⟩⟩

/-- A call that leads to one call does what that one does. -/
theorem twin_one {first : ParseCall} {σ' : TwinState} (plain : ∀ kind a, ¬ call.Sets kind a)
    (simple : call.ElementSet (P.on A) scan parse)
    (next : ∀ call', call.Next (P.on A) scan parse call' ↔ call' = first)
    (run : TwinRun P.reg R region cells (first.SetBelow (P.on A) scan parse)
      (first.ElementsSet (P.on A) scan parse) σ σ') :
    TwinRun P.reg R region cells (call.SetBelow (P.on A) scan parse) (call.ElementsSet (P.on A) scan parse) σ σ' :=
  run.congr (fun kind a => ((setBelow_one next).trans (or_iff_right (plain kind a))).symm)
    ((elementsSet_one next).trans (and_iff_right simple)).symm

/-- A call that leads to two does what the first and then the second does. -/
theorem twin_two {first second : ParseCall} {σ₁ σ₂ : TwinState} (plain : ∀ kind a, ¬ call.Sets kind a)
    (simple : call.ElementSet (P.on A) scan parse)
    (next : ∀ call', call.Next (P.on A) scan parse call' ↔ call' = first ∨ call' = second)
    (run : TwinRun P.reg R region cells (first.SetBelow (P.on A) scan parse)
      (first.ElementsSet (P.on A) scan parse) σ σ₁)
    (later : TwinRun P.reg R region cells (second.SetBelow (P.on A) scan parse)
      (second.ElementsSet (P.on A) scan parse) σ₁ σ₂) :
    TwinRun P.reg R region cells (call.SetBelow (P.on A) scan parse) (call.ElementsSet (P.on A) scan parse) σ σ₂ :=
  (run.trans later).congr (fun kind a => ((setBelow_two next).trans (or_iff_right (plain kind a))).symm)
    ((elementsSet_two next).trans (and_iff_right simple)).symm

/-- **A value** in both runs. -/
theorem twin_value (described : P.reg.Described) (same : A.SameGrants B) {heap : BlockHeap}
    (below : ∀ {next}, (ParseCall.value type descriptor heap s out).Next (P.on A) scan parse next →
      next.Twin P A B scan parse R) :
    (ParseCall.value type descriptor heap s out).Twin P A B scan parse R := by
  intro region cells σ twins home fits heap' rest completes
  obtain rfl : heap = σ.heap := home
  obtain ⟨found, covers⟩ := fits
  cases plain : peekChar (charByte '\x7b') s with
  | true =>
    have object : (ParseCall.object σ.heap s type out).Completes (P.on A) parse heap' rest := by
      simp only [ParseCall.Completes, parseJsonDescriptor, plain, if_true] at completes ⊢
      exact completes
    obtain ⟨σ', same', completes', run⟩ := below (.nested plain) _ _ _ twins rfl covers _ _ object
    exact ⟨σ', same', nested_completes plain completes',
      twin_one (fun kind a sets => Bool.false_ne_true (sets.1.symm.trans plain)) trivial (next_nested plain) run⟩
  | false =>
    have leaf : ∀ {kind}, P.reg.Leaf type kind 0 → cells kind out := fun leaf => covers _ _ ⟨0, leaf, rfl⟩
    cases class_ : descriptor.typeClass with
    | primitive => exact twin_primitive described plain twins (leaf (.primitive found class_)) class_ completes
    | string =>
      exact twin_string described same plain twins (fun cstring => leaf (.string found class_ cstring)) class_
        completes
    | array | object =>
      have unset : ∀ kind a, ¬ (ParseCall.value type descriptor σ.heap s out).Sets kind a := by
        rintro kind a ⟨-, -, ⟨primitive, -⟩ | ⟨string, -⟩⟩
        · exact absurd (class_.symm.trans primitive) (by decide)
        · exact absurd (class_.symm.trans string) (by decide)
      simp only [ParseCall.Completes, parseJsonDescriptor, plain, Bool.false_eq_true, if_false, Option.bind_some,
        class_] at completes
      cases completes
      refine ⟨σ, rfl, ?_, twin_unset plain twins unset⟩
      simp only [ParseCall.on, ParseCall.Completes, parseJsonDescriptor, plain, Bool.false_eq_true, if_false,
        Option.bind_some, class_]

/-! ### Elements -/

/-- The length of an array is the same in both heaps. -/
theorem Twins.length {a : Nat} (twins : Twins P.reg R region cells σ) (cell : cells (.array type) a) :
    metaArrayLen σ.twin.mem (σ.twin.mem.readNat a 8) = metaArrayLen σ.heap.mem (σ.heap.mem.readNat a 8) := by
  obtain ⟨pointers, ⟨null, -⟩ | ⟨p, n, cap, held, -⟩⟩ := twins.arrays cell
  · rw [readNat_congr pointers, null]
    rfl
  · have count : σ.twin.mem.readNat p 4 = n :=
      (readNat_congr (held.header.part le_rfl (by omega))).trans held.count
    rw [held.length, readNat_congr pointers, held.pointer, metaArrayLen, if_neg (Nat.succ_ne_zero _),
      Nat.add_sub_cancel]
    exact count

/-- The default procedures add an element behind the others. -/
theorem fieldArrayAdd_on (described : P.reg.Described) (has : P.reg.HasField of_) (offset : of_.offset = 0)
    (size : Nat) (heap : BlockHeap) (out : Nat) :
    fieldArrayAdd (P.on A) of_ size heap out = (intrusiveArrayAdd A heap out size).map fun heap' =>
      (heap', heap'.mem.readNat out 8 + metaArrayLen heap.mem (heap.mem.readNat out 8) * size) := by
  have props : (P.on A).reg.props = .default A := rfl
  have length : (IntrusiveArrayProps.default A).len = metaArrayLen := rfl
  unfold fieldArrayAdd
  simp only [described.procedures of_ has, offset, Option.getD_none, Nat.add_zero, props, default_add, length]

/-- **A new element of an intrusive array** in both runs. -/
theorem twin_intrusive (described : P.reg.Described) (same : A.SameGrants B) (related : A.Related R B)
    {heap : BlockHeap} (orderly : (ParseCall.intrusive of_ heap s out).Orderly P.reg)
    (below : ∀ {next}, (ParseCall.intrusive of_ heap s out).Next (P.on A) scan parse next →
      next.Twin P A B scan parse R) :
    (ParseCall.intrusive of_ heap s out).Twin P A B scan parse R := by
  intro region cells σ twins home fits heap' rest completes
  obtain rfl : heap = σ.heap := home
  obtain ⟨has, intrusive, offset, cell⟩ := fits
  obtain ⟨room, flat⟩ := orderly
  obtain ⟨descriptor, place, found, add, value⟩ := completes_intrusive completes
  have found : metaGetDescriptor P.reg of_.type = some descriptor := found
  have size := typeSize_found found
  have added := add
  rw [fieldArrayAdd_on described has offset, ← size] at added
  obtain ⟨next, grown, rfl⟩ := Option.map_eq_some_iff.mp added
  obtain ⟨twin', ptr, q, cap, added', both⟩ := twins.add described cell same related room grown
  have place : next.mem.readNat out 8 + metaArrayLen σ.heap.mem (σ.heap.mem.readNat out 8) *
      P.reg.typeSize of_.type = newElement P.reg of_.type q
        (metaArrayLen σ.heap.mem (σ.heap.mem.readNat out 8)) := by
    rw [both.held.pointer]
    rfl
  have place' : twin'.mem.readNat out 8 + metaArrayLen σ.twin.mem (σ.twin.mem.readNat out 8) *
      P.reg.typeSize of_.type = newElement P.reg of_.type q
        (metaArrayLen σ.heap.mem (σ.heap.mem.readNat out 8)) := by
    rw [twins.length cell, readNat_congr both.pointers, place]
  have add' : fieldArrayAdd (P.on B) of_ descriptor.size σ.twin out =
      some (twin', newElement P.reg of_.type q (metaArrayLen σ.heap.mem (σ.heap.mem.readNat out 8))) := by
    rw [fieldArrayAdd_on described has offset, ← size, added', Option.map_some, place']
  simp only [place] at add value
  have next_ : ∀ call', (ParseCall.intrusive of_ σ.heap s out).Next (P.on A) scan parse call' ↔ call' = _ :=
    next_added found add
  obtain ⟨σ', same', completes', run⟩ := below (.added found add) _ _ _ (both.element described twins flat)
    rfl ⟨found, fun _ _ cell => cell⟩ _ _ value
  refine ⟨_, ?_, ?_, (both.settle described twins cell flat run).congr (fun kind a => ?_) ?_⟩
  · exact same'
  · exact intrusive_completes (P := P.on B) found add' completes'
  · rw [setBelow_one next_]
    exact (or_iff_right id).symm
  · rw [elementsSet_one next_, and_comm]
    refine and_congr_left fun _ => ⟨fun set descriptor' place_ found' add_ kind offset leaf => ?_,
      fun set kind offset leaf => ?_⟩
    · obtain rfl := Option.some.inj (found.symm.trans found')
      obtain rfl := Option.some.inj (add.symm.trans add_)
      exact set kind offset ((leaf_on A).mp leaf)
    · exact set descriptor _ found add kind offset ((leaf_on A).mpr leaf)

/-- A leaf of a value that starts in a field is one of the field. -/
theorem MetaField.Start.leaf {reg : MetaRegistry} {start inner : Nat} {kind : LeafKind}
    (starts : of_.Start reg start) (plain : of_.isIntrusiveArray = false) (leaf : reg.Leaf of_.type kind inner) :
    of_.Leaf reg kind (start + inner) := by
  rw [MetaField.Leaf, if_neg (Bool.eq_false_iff.mp plain)]
  exact ⟨start, inner, starts, leaf, rfl⟩

/-- **An element of a fixed array** in both runs. -/
theorem twin_fixed (described : P.reg.Described) {heap : BlockHeap}
    (below : ∀ {next}, (ParseCall.fixed of_ i heap s out).Next (P.on A) scan parse next →
      next.Twin P A B scan parse R) :
    (ParseCall.fixed of_ i heap s out).Twin P A B scan parse R := by
  intro region cells σ twins home fits heap' rest completes
  obtain rfl : heap = σ.heap := home
  obtain ⟨has, fixed, offset, covers⟩ := fits
  obtain ⟨inside, descriptor, found, value⟩ := completes_fixed completes
  have found : metaGetDescriptor P.reg of_.type = some descriptor := found
  have starts : of_.Start P.reg (i * descriptor.size) := by
    rw [MetaField.Start, if_pos fixed, ← typeSize_found found]
    exact ⟨i, inside, rfl⟩
  have fits : (ParseCall.value of_.type descriptor σ.heap s (out + of_.offset + i * descriptor.size)).Fits P.reg
      cells := by
    refine ⟨found, ?_⟩
    rintro kind _ ⟨inner, leaf, rfl⟩
    rw [offset, Nat.add_zero, Nat.add_assoc]
    exact covers kind _ (starts.leaf (described.not_intrusive has fixed) leaf)
  obtain ⟨σ', same', completes', run⟩ := below (.fixedValue inside found) _ _ _ twins rfl fits _ _ value
  exact ⟨σ', same', fixed_completes (P := P.on B) inside found completes',
    twin_one (fun _ _ => id) trivial (next_fixedValue inside found) run⟩

/-- **The element of a round**: a call that leads to the heap behind the round, and the parts of the round in the
other run. -/
theorem element_call (described : P.reg.Described) {heap inner heap₂ : BlockHeap} {behind behind₂ : List UInt8}
    (orderly : of_.offset = 0) (fits : (ParseCall.elements of_ out i heap s).Fits P.reg cells)
    (fixed : fixedPart (P.on A) (objectProc (P.on A) parse) of_ i heap (skipWhitespace s) out =
      some (inner, .ok behind))
    (intrusive : intrusivePart (P.on A) (objectProc (P.on A) parse) of_ inner behind out =
      some (heap₂, .ok behind₂)) :
    ∃ first : ParseCall, (∀ call', ParseCall.ElementOf of_ i heap inner s behind out call' ↔ call' = first) ∧
      first.heap = heap ∧ first.Fits P.reg cells ∧ first.Completes (P.on A) parse heap₂ behind₂ ∧
        ∀ twin twin₂, (first.on twin).Completes (P.on B) parse twin₂ behind₂ → ∃ twin₁,
          fixedPart (P.on B) (objectProc (P.on B) parse) of_ i twin (skipWhitespace s) out =
            some (twin₁, .ok behind) ∧
          intrusivePart (P.on B) (objectProc (P.on B) parse) of_ twin₁ behind out =
            some (twin₂, .ok behind₂) := by
  obtain ⟨has, flags, covers⟩ := fits
  rcases described.array_of_flags has flags with is | is
  · have not_ := described.not_intrusive has is
    rw [intrusivePart_plain not_] at intrusive
    cases intrusive
    rw [fixedPart, if_pos is] at fixed
    refine ⟨.fixed of_ i heap (skipWhitespace s) out, fun call' => ?_, rfl, ⟨has, is, orderly, covers⟩, fixed,
      fun twin twin₂ completes => ⟨twin₂, ?_, intrusivePart_plain not_⟩⟩
    · unfold ParseCall.ElementOf
      simp only [is, not_, true_and, Bool.false_eq_true, false_and, or_false]
    · rw [fixedPart, if_pos is]
      exact completes
  · have not_ := described.not_fixed has is
    rw [fixedPart_plain not_] at fixed
    cases fixed
    rw [intrusivePart, if_pos is] at intrusive
    have leaf : of_.Leaf P.reg (.array of_.type) 0 := by
      rw [MetaField.Leaf, if_pos is]
      exact ⟨rfl, rfl⟩
    refine ⟨.intrusive of_ heap (skipWhitespace s) out, fun call' => ?_, rfl,
      ⟨has, is, orderly, covers _ _ leaf⟩, intrusive,
      fun twin twin₂ completes => ⟨twin, fixedPart_plain not_, ?_⟩⟩
    · unfold ParseCall.ElementOf
      simp only [is, not_, true_and, Bool.false_eq_true, false_and, false_or]
    · rw [intrusivePart, if_pos is]
      exact completes

/-- **A round of an array literal** in both runs. -/
theorem twin_elements (floats : P.floats.Advances) (described : P.reg.Described) {heap : BlockHeap}
    (orderly : (ParseCall.elements of_ out i heap s).Orderly P.reg)
    (below : ∀ {next}, (ParseCall.elements of_ out i heap s).Next (P.on A) scan parse next →
      next.Twin P A B scan parse R) :
    (ParseCall.elements of_ out i heap s).Twin P A B scan parse R := by
  intro region cells σ twins home fits heap' rest completes
  obtain rfl : heap = σ.heap := home
  obtain ⟨inner, behind, heap₂, behind₂, fixed, intrusive, after⟩ :=
    completes_elements (P := P.on A) floats completes
  obtain ⟨first, element, home, fits₁, completes₁, again⟩ :=
    element_call (B := B) described orderly fits fixed intrusive
  rcases after with ⟨closed, rfl⟩ | ⟨later, open_, separated, elements⟩
  · have next : ∀ call', (ParseCall.elements of_ out i σ.heap s).Next (P.on A) scan parse call' ↔ call' = first :=
      fun call' => (next_element_last fixed intrusive closed call').trans (element call')
    obtain ⟨σ', same', completes', run⟩ := below ((next first).mpr rfl) _ _ _ twins home fits₁ _ _ completes₁
    obtain ⟨twin₁, fixed', intrusive'⟩ := again _ _ completes'
    exact ⟨σ', same', element_last_completes (P := P.on B) fixed' intrusive' closed,
      twin_one (fun _ _ => id) trivial next run⟩
  · have next : ∀ call', (ParseCall.elements of_ out i σ.heap s).Next (P.on A) scan parse call' ↔
        call' = first ∨ call' = .elements of_ out (i + 1) heap₂ later := fun call' =>
      (next_element fixed intrusive open_ separated call').trans (or_congr_left (element call'))
    obtain ⟨σ₁, rfl, completes', run⟩ :=
      below ((next first).mpr (Or.inl rfl)) _ _ _ twins home fits₁ _ _ completes₁
    obtain ⟨twin₁, fixed', intrusive'⟩ := again _ _ completes'
    obtain ⟨σ₂, same', later', run'⟩ :=
      below ((next _).mpr (Or.inr rfl)) _ _ _ run.twins rfl fits _ _ elements
    exact ⟨σ₂, same', element_completes (P := P.on B) floats fixed' intrusive' open_ separated later',
      twin_two (fun _ _ => id) trivial next run run'⟩

/-! ### Fields and objects -/

/-- **A field** in both runs. -/
theorem twin_field (described : P.reg.Described) {heap : BlockHeap}
    (orderly : (ParseCall.field of_ heap s out).Orderly P.reg)
    (below : ∀ {next}, (ParseCall.field of_ heap s out).Next (P.on A) scan parse next →
      next.Twin P A B scan parse R) :
    (ParseCall.field of_ heap s out).Twin P A B scan parse R := by
  intro region cells σ twins home fits heap' rest completes
  obtain rfl : heap = σ.heap := home
  obtain ⟨has, covers⟩ := fits
  rcases completes_field completes with ⟨text, opened, flags, elements⟩ | ⟨single, descriptor, found, value⟩
  · obtain ⟨σ', same', completes', run⟩ :=
      below (.elements opened flags) _ _ _ twins rfl ⟨has, flags, covers⟩ _ _ elements
    exact ⟨σ', same', literal_completes (P := P.on B) opened flags completes',
      twin_one (fun _ _ => id) trivial (next_literal opened flags) run⟩
  · have found : metaGetDescriptor P.reg of_.type = some descriptor := found
    have starts : of_.Start P.reg 0 := by
      unfold MetaField.Start
      split
      next fixed => exact ⟨0, described.elements of_ has fixed, (Nat.zero_mul _).symm⟩
      next => rfl
    have fits : (ParseCall.value of_.type descriptor σ.heap (skipWhitespace s) out).Fits P.reg cells := by
      refine ⟨found, ?_⟩
      rintro kind _ ⟨inner, leaf, rfl⟩
      have covered := covers kind _ (starts.leaf (orderly single) leaf)
      rwa [Nat.zero_add] at covered
    obtain ⟨σ', same', completes', run⟩ := below (.single single found) _ _ _ twins rfl fits _ _ value
    exact ⟨σ', same', single_completes (P := P.on B) single found completes',
      twin_one (fun _ _ => id) trivial (next_single single found) run⟩

/-- **The members of an object** in both runs. -/
theorem twin_members (floats : P.floats.Advances) {heap : BlockHeap}
    (below : ∀ {next}, (ParseCall.members descriptor out heap s).Next (P.on A) scan parse next →
      next.Twin P A B scan parse R) :
    (ParseCall.members descriptor out heap s).Twin P A B scan parse R := by
  intro region cells σ twins home fits heap' rest completes
  obtain rfl : heap = σ.heap := home
  obtain ⟨type, registered, covers⟩ := fits
  obtain ⟨name, text, key, ⟨missing, later, skipped, members⟩ | ⟨of_, inner, behind, found, parsed, after⟩⟩ :=
    completes_members (P := P.on A) floats completes
  · obtain ⟨σ', same', completes', run⟩ :=
      below (.unknown key missing skipped) _ _ _ twins rfl ⟨type, registered, covers⟩ _ _ members
    exact ⟨σ', same', unknown_completes (P := P.on B) floats key missing skipped completes',
      twin_one (fun _ _ => id) trivial (next_unknown key missing skipped) run⟩
  · have member := List.mem_of_find?_eq_some found
    have fits : (ParseCall.field of_ σ.heap text (out + of_.offset)).Fits P.reg cells := by
      refine ⟨⟨type, descriptor, registered, member⟩, fun kind offset leaf => ?_⟩
      exact covers kind _ ⟨_, leaf.object registered member, by rw [Nat.add_assoc]⟩
    obtain ⟨σ₁, rfl, completes', run⟩ := below (.field key found) _ _ _ twins rfl fits _ _ parsed
    rcases after with ⟨closed, rfl⟩ | ⟨later, open_, separated, members⟩
    · exact ⟨σ₁, rfl, last_completes (P := P.on B) key found completes' closed,
        twin_one (fun _ _ => id) trivial (next_last key found parsed closed) run⟩
    · obtain ⟨σ₂, same', later', run'⟩ := below (.member key found parsed open_ separated) _ _ _ run.twins
        rfl ⟨type, registered, covers⟩ _ _ members
      exact ⟨σ₂, same', member_completes (P := P.on B) floats key found completes' open_ separated later',
        twin_two (fun _ _ => id) trivial (next_member key found parsed open_ separated) run run'⟩

/-- **An object** in both runs. -/
theorem twin_object (floats : P.floats.Advances) {heap : BlockHeap}
    (below : ∀ {next}, (ParseCall.object heap s type out).Next (P.on A) scan parse next →
      next.Twin P A B scan parse R) :
    (ParseCall.object heap s type out).Twin P A B scan parse R := by
  intro region cells σ twins home fits heap' rest completes
  obtain rfl : heap = σ.heap := home
  obtain ⟨descriptor, text, found, opened, members⟩ := completes_object (P := P.on A) floats completes
  have found : metaGetDescriptor P.reg type = some descriptor := found
  obtain ⟨σ', same', completes', run⟩ :=
    below (.object found opened) _ _ _ twins rfl ⟨type, found, fits⟩ _ _ members
  exact ⟨σ', same', object_completes (P := P.on B) floats found opened completes',
    twin_one (fun _ _ => id) trivial (next_object found opened) run⟩

/-- **A call that is completed in one run** is completed in the other, where all that it leads to is orderly. -/
theorem ParseCall.twin (floats : P.floats.Advances) (described : P.reg.Described) (same : A.SameGrants B)
    (related : A.Related R B) (call : ParseCall) :
    (∀ later, call.Reaches (P.on A) scan parse later → later.Orderly P.reg) → call.Twin P A B scan parse R := by
  have down : WellFounded (flip (ParseCall.Next (P.on A) scan parse)) := next_wellFounded floats
  induction call using down.induction with
  | _ call ih =>
    intro orderly
    have below : ∀ {next}, call.Next (P.on A) scan parse next → next.Twin P A B scan parse R := fun next =>
      ih _ next fun later reached => orderly later (.head next reached)
    have here := orderly call .refl
    cases call with
    | document expected heap json => exact fun _ _ _ _ _ fits => fits.elim
    | object heap s type out => exact twin_object floats below
    | members descriptor out heap s => exact twin_members floats below
    | field of_ heap s out => exact twin_field described here below
    | elements of_ out i heap s => exact twin_elements floats described here below
    | fixed of_ i heap s out => exact twin_fixed described below
    | intrusive of_ heap s out => exact twin_intrusive described same related here below
    | value type descriptor heap s out => exact twin_value described same below

end Twin

end Vaudou
