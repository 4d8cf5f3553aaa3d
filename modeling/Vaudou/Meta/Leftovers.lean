/-
**What memory held before it was granted.**

`LeftoverFree` compares two runs of the parser on one text whose allocators grant the same blocks, with other
bytes in them: where both return 0, the objects are equal field by field (`SameContents`). The object is zeroed,
and strings and the headers of arrays are written whole. An element that is added to an intrusive array is not:
it holds what was in memory before, but for the leaves that the text sets.

* `leftoverFree_iff` — so no leftovers show exactly if the text sets every leaf of every element.
-/

import Vaudou.Meta.ArrayValues
import Vaudou.Meta.TwinRuns

namespace Vaudou

open Vaudou.Memory Vaudou.Text Relation

/-! ### Codes -/

section Codes

variable {P : MetaParser} {I : BlockHeap → Prop} {parse : UnsetKeys} {parseObject : ParseProc}

theorem parseMembersWith_leaves (frame : P.Frame I)
    (objects : ∀ heap s type object, I heap → (parseObject heap s type object).Leaves I)
    {descriptor : MetaDescriptor} (has : ∀ field ∈ descriptor.fields, P.reg.HasField field) (object : Nat) :
    ∀ (fuel : Nat) (heap : BlockHeap) (s : List UInt8), I heap →
      (parseMembersWith P parse parseObject descriptor object fuel heap s).Leaves I := by
  intro fuel
  induction fuel with
  | zero => exact fun _ _ _ => leaves_none
  | succ fuel ih =>
    intro heap s keeps
    rw [parseMembersWith]
    split
    · exact leaves_error keeps (by decide)
    · split
      · split
        · exact leaves_error keeps (by decide)
        · exact ih _ _ keeps
      · next field found =>
        have member := has field (List.mem_of_find?_eq_some found)
        refine leaves_andThen (parseJsonField_leaves frame objects member _ _ _ keeps)
          fun heap rest keeps => ?_
        split
        · exact leaves_ok keeps
        · split
          · exact ih _ _ keeps
          · exact leaves_error keeps (by decide)

theorem parseJsonObjectWith_leaves (frame : P.Frame I) :
    ∀ (fuel : Nat) (heap : BlockHeap) (s : List UInt8) (type object : Nat),
      I heap → (parseJsonObjectWith P parse fuel heap s type object).Leaves I := by
  intro fuel
  induction fuel with
  | zero => exact fun _ _ _ _ _ => leaves_none
  | succ fuel ih =>
    intro heap s type object keeps
    rw [parseJsonObjectWith]
    split
    · exact leaves_error keeps (by decide)
    · next descriptor found =>
      split
      · exact leaves_error keeps (by decide)
      · exact parseMembersWith_leaves frame ih
          (fun field member => ⟨type, descriptor, found, member⟩) _ _ _ _ keeps

/-- **The codes of the parser** other than success are negative, whatever is in unset keys. -/
theorem objectProc_negative (heap : BlockHeap) (s : List UInt8) (type object : Nat) :
    (objectProc P parse heap s type object).Negative := by
  have frame : P.Frame fun _ => True := ⟨fun _ _ _ => trivial, fun _ _ _ _ _ _ => trivial,
    fun _ _ _ _ _ _ _ _ => trivial⟩
  intro heap' code failed
  exact (parseJsonObjectWith_leaves frame (s.length + 1) heap s type object trivial heap' _ failed).2 code rfl

end Codes

/-! ### Documents -/

section Documents

variable {P : MetaParser} {scan parse : UnsetKeys} {expected type object : Nat} {heap heap' : BlockHeap}
  {json rest : List UInt8} {descriptor : MetaDescriptor} {granted : BlockHeap × Nat} {parsed : MetaParsed}

/-- **A document whose object was parsed.** -/
structure DocumentParsed (P : MetaParser) (scan parse : UnsetKeys) (expected : Nat) (heap : BlockHeap)
    (json : List UInt8) (type : Nat) (descriptor : MetaDescriptor) (granted : BlockHeap × Nat) (heap' : BlockHeap)
    (rest : List UInt8) : Prop where
  scanned : jsonGetObjectTypeWith P scan expected json = some (.ok type)
  found : metaGetDescriptor P.reg type = some descriptor
  alloc : P.alloc.alloc heap descriptor.size = some granted
  completes : (ParseCall.object (zeroedBlock granted descriptor.size) json type granted.2).Completes P parse
    heap' rest

theorem DocumentParsed.metaParseJson
    (document : DocumentParsed P scan parse expected heap json type descriptor granted heap' rest) :
    metaParseJsonWith P scan parse expected heap json = some ⟨heap', 0, some granted.2, some type⟩ := by
  have completes : parseJsonObjectWith P parse (json.length + 1) (zeroedBlock granted descriptor.size) json type
      granted.2 = some (heap', .ok rest) := document.completes
  unfold zeroedBlock at completes
  simp only [metaParseJsonWith, document.scanned, Option.bind_some, document.found, document.alloc, completes,
    Option.map_some, resultCode]

/-- A run that returns 0 and gives an object parsed it. -/
theorem documentParsed (ran : metaParseJsonWith P scan parse expected heap json = some parsed)
    (success : parsed.ret = 0) (place : parsed.object = some object) :
    ∃ type descriptor granted heap' rest,
      DocumentParsed P scan parse expected heap json type descriptor granted heap' rest ∧
        parsed = ⟨heap', 0, some granted.2, some type⟩ := by
  unfold metaParseJsonWith at ran
  obtain ⟨outcome, scanned, ran⟩ := Option.bind_eq_some_iff.mp ran
  cases outcome with
  | error code =>
    cases ran
    cases place
  | ok type =>
    cases found : metaGetDescriptor P.reg type with
    | none =>
      simp only [found] at ran
      cases ran
      cases place
    | some descriptor =>
      simp only [found] at ran
      obtain ⟨granted, alloc, ran⟩ := Option.bind_eq_some_iff.mp ran
      obtain ⟨⟨heap', outcome⟩, completes, rfl⟩ := Option.map_eq_some_iff.mp ran
      have completes : objectProc P parse (zeroedBlock granted descriptor.size) json type granted.2 =
        some (heap', outcome) := completes
      cases outcome with
      | error code =>
        have negative := objectProc_negative _ _ _ _ heap' code completes
        have zero : code = 0 := success
        omega
      | ok rest => exact ⟨type, descriptor, granted, heap', rest, ⟨scanned, found, alloc, completes⟩, rfl⟩

/-- A document leads to its object. -/
theorem next_document (scanned : jsonGetObjectTypeWith P scan expected json = some (.ok type))
    (found : metaGetDescriptor P.reg type = some descriptor)
    (alloc : P.alloc.alloc heap descriptor.size = some granted) (call' : ParseCall) :
    (ParseCall.document expected heap json).Next P scan parse call' ↔
      call' = .object (zeroedBlock granted descriptor.size) json type granted.2 := by
  refine ⟨fun next => ?_, fun same => same ▸ .document scanned found alloc⟩
  cases next with
  | document scanned' found' alloc' =>
    obtain rfl := Except.ok.inj (Option.some.inj (scanned.symm.trans scanned'))
    obtain rfl := Option.some.inj (found.symm.trans found')
    rw [Option.some.inj (alloc.symm.trans alloc')]

end Documents

/-! ### Two runs -/

section Runs

variable {P : MetaParser} {A B : BlockAlloc} {scan parse : UnsetKeys} {R : UInt8 → UInt8 → Prop}
  {expected type object p : Nat} {heap heap' granted granted' : BlockHeap} {json rest : List UInt8}
  {descriptor : MetaDescriptor} {region : Nat × Nat} {cells : LeafKind → Nat → Prop} {σ : TwinState}

/-- A byte of a zeroed block. -/
theorem zeroedBlock_zero {n x : Nat} (inside : Within p n x) : (zeroedBlock (granted, p) n).mem x = 0 := by
  obtain ⟨i, rfl⟩ : ∃ i, x = p + i := ⟨x - p, by have := inside.1; omega⟩
  have within : i < (List.replicate n (0 : UInt8)).length := by
    rw [List.length_replicate]
    have := inside.2
    omega
  show granted.mem.store p _ (p + i) = 0
  rw [store_inside within, List.getElem_replicate]

/-- **An object that was zeroed in both heaps**: all leaves are known, and all arrays are null. -/
theorem twins_zeroed (described : P.reg.Described) (separate : heap.Separate) (twin : BlockHeap)
    (found : metaGetDescriptor P.reg type = some descriptor)
    (alloc : A.alloc heap descriptor.size = some (granted, p)) (live : twin.live = granted.live) :
    Twins P.reg R (p, descriptor.size) (P.reg.CellsAt type p)
      ⟨fun x => x = p, fun _ _ => True, fun _ => True, zeroedBlock (granted, p) descriptor.size,
        zeroedBlock (twin, p) descriptor.size⟩ := by
  have member : (p, descriptor.size) ∈ granted.live := by
    rw [A.live alloc]
    exact List.mem_cons_self
  have inside : ∀ {kind a}, P.reg.CellsAt type p kind a → ∀ x, Within a kind.width x →
      Within p descriptor.size x := by
    rintro kind _ ⟨offset, leaf, rfl⟩ x ⟨low, high⟩
    have fits := (leaf.inside described).1
    rw [typeSize_found found] at fits
    exact ⟨by omega, by omega⟩
  have zero : ∀ {kind a}, P.reg.CellsAt type p kind a → ∀ h : BlockHeap, ∀ x, Within a kind.width x →
      (zeroedBlock (h, p) descriptor.size).mem x = 0 := fun cell h x within =>
    zeroedBlock_zero (inside cell x within)
  have same : ∀ {kind a}, P.reg.CellsAt type p kind a →
      Same (zeroedBlock (granted, p) descriptor.size).mem (zeroedBlock (twin, p) descriptor.size).mem a
        kind.width :=
    fun cell x low high => (zero cell twin x ⟨low, high⟩).trans (zero cell granted x ⟨low, high⟩).symm
  have null : ∀ {kind a}, P.reg.CellsAt type p kind a → kind.width = 8 →
      (zeroedBlock (granted, p) descriptor.size).mem.readNat a 8 = 0 := fun cell width =>
    readNat_zeroed fun x low high => zero cell granted x ⟨low, by rw [width]; exact high⟩
  have apart : granted.Separate := separate.alloc alloc
  refine ⟨live, apart, ?_, ⟨rfl, member⟩, fun cell x within => inside cell x within, ?_, ?_,
    fun _ _ unknown => absurd trivial unknown, fun cell => ⟨same cell, Or.inl ⟨null cell rfl, trivial⟩⟩,
    fun cell _ _ => Or.inl (null cell rfl), fun _ _ _ _ => trivial⟩
  · rintro x rfl
    exact ⟨A.nonnull alloc, _, described.sized found, member⟩
  · rintro kind kind' _ _ ⟨offset, leaf, rfl⟩ ⟨offset', leaf', rfl⟩
    rcases leaf.apart described leaf' with ⟨rfl, rfl⟩ | apart
    · exact Or.inl ⟨rfl, rfl⟩
    · exact Or.inr (by omega)
  · intro kind a cell value _
    cases kind with
    | bytes width => exact same cell
    | string => exact ⟨same cell, Or.inl (null cell rfl)⟩
    | array => cases value

theorem namedType_on (P : MetaParser) (A : BlockAlloc) (expected : Nat) (name : List UInt8) :
    namedType (P.on A) expected name = namedType P expected name := rfl

theorem objectTypeLoopWith_on (P : MetaParser) (A : BlockAlloc) (keys : UnsetKeys) (expected : Nat) :
    ∀ (fuel : Nat) (s : List UInt8),
      objectTypeLoopWith (P.on A) keys expected fuel s = objectTypeLoopWith P keys expected fuel s
  | 0, _ => rfl
  | fuel + 1, s => by
    rw [objectTypeLoopWith, objectTypeLoopWith]
    simp only [objectTypeLoopWith_on P A keys expected fuel, namedType_on]

/-- The type of a text does not depend on the allocator. -/
theorem jsonGetObjectTypeWith_on (P : MetaParser) (A : BlockAlloc) (keys : UnsetKeys) (expected : Nat)
    (s : List UInt8) :
    jsonGetObjectTypeWith (P.on A) keys expected s = jsonGetObjectTypeWith P keys expected s := by
  unfold jsonGetObjectTypeWith
  simp only [objectTypeLoopWith_on]

/-- **Two runs on one text.** -/
theorem twin_document (floats : P.floats.Advances) (described : P.reg.Described) (separate : heap.Separate)
    (same : A.SameGrants B) (related : A.Related R B) {granted : BlockHeap × Nat}
    (orderly : ∀ call, (ParseCall.document expected heap json).Reaches (P.on A) scan parse call →
      call.Orderly P.reg)
    (document : DocumentParsed (P.on A) scan parse expected heap json type descriptor granted heap' rest) :
    ∃ σ granted', σ.heap = heap' ∧
      DocumentParsed (P.on B) scan parse expected heap json type descriptor (granted', granted.2) σ.twin rest ∧
        Twins P.reg R (granted.2, descriptor.size) (P.reg.CellsAt type granted.2) σ ∧
          (∀ kind a, P.reg.CellsAt type granted.2 kind a → σ.known kind a) ∧
            (σ.AllSound (P.reg.CellsAt type granted.2) ↔
              (ParseCall.document expected heap json).ElementsSet (P.on A) scan parse) := by
  obtain ⟨granted, p⟩ := granted
  have next : ∀ call', (ParseCall.document expected heap json).Next (P.on A) scan parse call' ↔ call' = _ :=
    next_document document.scanned document.found document.alloc
  have found : metaGetDescriptor P.reg type = some descriptor := document.found
  have alloc : A.alloc heap descriptor.size = some (granted, p) := document.alloc
  have scanned : jsonGetObjectTypeWith (P.on B) scan expected json = some (.ok type) := by
    rw [jsonGetObjectTypeWith_on, ← jsonGetObjectTypeWith_on P A]
    exact document.scanned
  obtain ⟨granted', alloc', live⟩ := same.granted rfl alloc
  have start : Twins P.reg R _ _ _ := twins_zeroed described separate granted' found alloc live
  obtain ⟨σ, same', completes, run⟩ := ParseCall.twin floats described same related _
    (fun later reached => orderly later (.head ((next _).mpr rfl) reached)) _ _ _ start rfl (fun _ _ cell => cell)
    _ _ document.completes
  refine ⟨σ, granted', same', ⟨scanned, found, alloc', completes⟩, run.twins,
    fun kind a cell => (run.known kind a cell).mpr (Or.inl trivial), ?_⟩
  rw [run.sound, elementsSet_one next]
  exact and_congr ⟨fun _ => trivial, fun _ _ _ _ => trivial⟩ Iff.rfl

/-! ### Equal objects -/

/-- An object whose leaves are the same, and none of them an array. -/
theorem sameContents_of_cells {written : Nat → Prop} {heap twin : BlockHeap} {reg : MetaRegistry} {a : Nat}
    (same : ∀ kind offset, reg.Leaf type kind offset → SameCell written heap twin kind (a + offset)) :
    SameContents reg heap.mem twin.mem type a a := by
  refine .leaves (fun width offset leaf => load_congr (same _ offset leaf)) (fun offset leaf => ?_)
    (fun element offset leaf => (same _ offset leaf).elim) fun element offset leaf => (same _ offset leaf).elim
  obtain ⟨pointers, text⟩ := same _ offset leaf
  rw [readNat_congr pointers]
  rcases text with null | ⟨content, -, -, is, bytes⟩
  · exact Or.inl ⟨null, null⟩
  · by_cases null : heap.mem.readNat (a + offset) 8 = 0
    · exact Or.inl ⟨null, null⟩
    · exact Or.inr ⟨null, null, content, is, is.congr bytes⟩

/-- The elements of an array are behind its header, in both heaps. -/
theorem HeldArray.element_at {written : Nat → Prop} {home : Nat} {heap twin : BlockHeap} {reg : MetaRegistry}
    {a n cap : Nat} (held : HeldArray reg R written home heap twin type a p n cap)
    (pointers : Same heap.mem twin.mem a 8) (i : Nat) :
    elementAt heap.mem a (reg.typeSize type) i = p + 8 + i * reg.typeSize type ∧
      elementAt twin.mem a (reg.typeSize type) i = p + 8 + i * reg.typeSize type := by
  unfold elementAt
  rw [readNat_congr pointers, held.pointer]
  exact ⟨rfl, rfl⟩

/-- **Where all elements are sound** the objects are equal. -/
theorem Twins.sameContents (twins : Twins P.reg R region (P.reg.CellsAt type object) σ)
    (known : ∀ kind a, P.reg.CellsAt type object kind a → σ.known kind a)
    (sound : σ.AllSound (P.reg.CellsAt type object)) :
    SameContents P.reg σ.heap.mem σ.twin.mem type object object := by
  have cell : ∀ {kind offset}, P.reg.Leaf type kind offset → P.reg.CellsAt type object kind (object + offset) :=
    fun leaf => ⟨_, leaf, rfl⟩
  have same : ∀ {kind offset}, P.reg.Leaf type kind offset → kind.isArray = false →
      SameCell σ.written σ.heap σ.twin kind (object + offset) := fun leaf value =>
    twins.same (cell leaf) value (known _ _ (cell leaf))
  refine .leaves (fun width offset leaf => load_congr (same leaf rfl)) (fun offset leaf => ?_)
    (fun element offset leaf => twins.length (cell leaf)) fun element offset leaf i inside => ?_
  · obtain ⟨pointers, text⟩ := same leaf rfl
    rw [readNat_congr pointers]
    by_cases null : σ.heap.mem.readNat (object + offset) 8 = 0
    · exact Or.inl ⟨null, null⟩
    · obtain ⟨content, -, -, is, bytes⟩ := text.resolve_left null
      exact Or.inr ⟨null, null, content, is, is.congr bytes⟩
  · obtain ⟨pointers, ⟨null, -⟩ | ⟨q, n, cap, held, elements, -⟩⟩ := twins.arrays (cell leaf)
    · rw [null] at inside
      exact absurd inside (Nat.not_lt_zero i)
    · rw [held.length] at inside
      obtain ⟨first, second⟩ := held.element_at pointers i
      rw [first, second]
      exact sameContents_of_cells (elements (sound element _ (cell leaf)) i inside)

/-- **Bytes that are 0 in one heap and 1 in the other** are no leaf of equal objects. -/
theorem SameContents.no_leftover {reg : MetaRegistry} {heap twin : BlockHeap} {kind : LeafKind} {a offset : Nat}
    (same : SameContents reg heap.mem twin.mem type a a) (described : reg.Described)
    (leaf : reg.Leaf type kind offset) (value : kind.isArray = false)
    (unset : Unset (fun x y => x = 0 ∧ y = 1) heap twin kind (a + offset)) : False := by
  obtain ⟨bytes, strings, -, -⟩ := same
  cases kind with
  | array => cases value
  | bytes width =>
    have some_ : 0 < width := (leaf.inside described).2
    have loads := congrArg (·[0]?) (bytes width offset leaf)
    obtain ⟨zero, one⟩ := unset (a + offset) ⟨le_rfl, Nat.lt_add_of_pos_right some_⟩
    simp [Mem.load, some_, zero, one] at loads
  | string =>
    have null : heap.mem.readNat (a + offset) 8 = 0 :=
      readNat_zeroed fun x low high => (unset x ⟨low, high⟩).1
    have ones : twin.mem.load (a + offset) 8 = List.replicate 8 1 := by
      refine List.ext_getElem (by rw [load_length, List.length_replicate]) fun i low _ => ?_
      rw [load_length] at low
      rw [load_getElem, List.getElem_replicate]
      exact (unset _ ⟨Nat.le_add_right _ _, by show _ < a + offset + 8; omega⟩).2
    have filled : twin.mem.readNat (a + offset) 8 ≠ 0 := by
      rw [Mem.readNat, ones]
      decide
    rcases strings offset leaf with ⟨-, null'⟩ | ⟨some_, -⟩
    · exact filled null'
    · exact some_ null

/-- **Where the objects are equal** all elements are sound, if what was not set differs. -/
theorem Twins.allSound (described : P.reg.Described)
    (twins : Twins P.reg (fun x y => x = 0 ∧ y = 1) region (P.reg.CellsAt type object) σ)
    (same : SameContents P.reg σ.heap.mem σ.twin.mem type object object) :
    σ.AllSound (P.reg.CellsAt type object) := by
  rintro element _ ⟨offset, leaf, rfl⟩
  by_contra unsound
  obtain ⟨-, -, -, elements⟩ := same
  obtain ⟨pointers, ⟨-, sound⟩ | ⟨q, n, cap, held, -, spoiled⟩⟩ := twins.arrays ⟨offset, leaf, rfl⟩
  · exact unsound sound
  · obtain ⟨i, inside, kind, inner, part, value, unset⟩ := spoiled unsound
    have equal := elements element offset leaf i (by rw [held.length]; exact inside)
    obtain ⟨first, second⟩ := held.element_at pointers i
    rw [first, second] at equal
    exact equal.no_leftover described part value unset

end Runs

/-! ### Leftovers -/

/-- **Nothing is left over**: two runs that both return 0 give objects that are equal field by field, whatever
bytes the allocators leave in the blocks that they grant. -/
def LeftoverFree (P : MetaParser) (scan parse : UnsetKeys) (expected : Nat) (heap : BlockHeap)
    (json : List UInt8) : Prop :=
  ∀ A B, P.alloc.SameGrants A → P.alloc.SameGrants B → ∀ first second object object',
    metaParseJsonWith (P.on A) scan parse expected heap json = some first → first.ret = 0 →
    metaParseJsonWith (P.on B) scan parse expected heap json = some second → second.ret = 0 →
    first.object = some object → second.object = some object' →
      ∃ type, first.type = some type ∧ second.type = some type ∧
        SameContents P.reg first.heap.mem second.heap.mem type object object'

/-- **No leftovers show** in the object exactly if the text sets every leaf of every element that is added to an
intrusive array, in orderly runs; the run with zeroes in all blocks stands for all of them. -/
theorem leftoverFree_iff (P : MetaParser) (floats : P.floats.Advances) (described : P.reg.Described)
    (scan parse : UnsetKeys) (expected : Nat) (heap : BlockHeap) (separate : heap.Separate)
    (determined : P.alloc.SameGrants P.alloc) (json : List UInt8) (parsed : MetaParsed) (object : Nat)
    (ran : metaParseJsonWith (P.on (P.alloc.filled 0)) scan parse expected heap json = some parsed)
    (success : parsed.ret = 0) (place : parsed.object = some object)
    (orderly : ∀ call, (ParseCall.document expected heap json).Reaches (P.on (P.alloc.filled 0)) scan parse call →
      call.Orderly P.reg) :
    LeftoverFree P scan parse expected heap json ↔
      (ParseCall.document expected heap json).ElementsSet (P.on (P.alloc.filled 0)) scan parse := by
  obtain ⟨type, descriptor, granted, heap', rest, document, rfl⟩ := documentParsed ran success place
  constructor
  · intro free
    -- zeroes in the blocks of one run, and ones in those of the other
    have zeroes : P.alloc.SameGrants (P.alloc.filled 0) := determined.fill_right 0
    have ones : P.alloc.SameGrants (P.alloc.filled 1) := determined.fill_right 1
    obtain ⟨σ, granted', rfl, document', twins, -, sound⟩ := twin_document floats described separate
      (ones.fill_left 0) (R := fun x y => x = 0 ∧ y = 1)
      (fun alloc alloc' x inside => ⟨filled_bytes alloc inside, filled_bytes alloc' inside⟩) orderly document
    obtain ⟨_, same, -, equal⟩ :=
      free _ _ zeroes ones _ _ _ _ document.metaParseJson rfl document'.metaParseJson rfl
      rfl rfl
    obtain rfl := Option.some.inj same
    exact sound.mp (twins.allSound described equal)
  · intro set A B grantsA grantsB first second _ _ ranA successA ranB successB placeA placeB
    have equal : ∀ {C : BlockAlloc} {result : MetaParsed} {place : Nat}, P.alloc.SameGrants C →
        metaParseJsonWith (P.on C) scan parse expected heap json = some result → result.object = some place →
          result.type = some type ∧ SameContents P.reg heap'.mem result.heap.mem type granted.2 place := by
      intro C result place grants ranC placeC
      obtain ⟨σ, granted', rfl, document', twins, known, sound⟩ := twin_document floats described separate
        (grants.fill_left 0) (R := fun _ _ => True) (fun _ _ _ _ => trivial) orderly document
      obtain rfl := Option.some.inj (document'.metaParseJson.symm.trans ranC)
      obtain rfl := Option.some.inj placeC
      exact ⟨rfl, twins.sameContents known (sound.mpr set)⟩
    obtain ⟨typeA, same⟩ := equal grantsA ranA placeA
    obtain ⟨typeB, same'⟩ := equal grantsB ranB placeB
    exact ⟨type, typeA, typeB, same.symm.trans same'⟩

/-! ### A bag of numbers, and a bag of cells -/

/-- Other facts of bags. -/
theorem bag_described : bagRegistry.Described := by
  have sizes : ∀ type ∈ (metaRegisterAll (metaEmpty (.default .bump)) bagTypes).2,
      0 < type.size ∧ type.fields.length ≤ 1 := by decide +kernel
  have known : ∀ {id : Nat} {type : MetaDescriptor}, metaGetDescriptor bagRegistry id = some type →
      type ∈ (metaRegisterAll (metaEmpty (.default .bump)) bagTypes).2 := fun found =>
    (metaGetDescriptor_some bagRegistry_lists found).1
  refine ⟨bagRegistry_valid, bagRegistry_bare, ?_, ?_, fun found => (sizes _ (known found)).1,
    fun found member => ((bag_types _ (known found)).1 _ member).1, ?_,
    fun found => (bag_types _ (known found)).2.1,
    fun found kind => absurd kind (bag_types _ (known found)).2.2.1⟩
  · rintro field ⟨type, descriptor, found, member⟩
    exact Option.isNone_iff_eq_none.mp ((bag_types _ (known found)).1 _ member).2.2
  · rintro field ⟨type, descriptor, found, member⟩ fixed
    rw [MetaField.isFixedArray, ((bag_types _ (known found)).1 _ member).2.1] at fixed
    cases fixed
  · intro type descriptor field other found member member' different
    have few := (sizes _ (known found)).2
    obtain ⟨i, inside, rfl⟩ := List.getElem_of_mem member
    obtain ⟨j, inside', rfl⟩ := List.getElem_of_mem member'
    obtain rfl : i = j := by omega
    exact absurd rfl different

/-- The parser of bags, with zeroes in the blocks that it is granted. -/
def bagZeroes : MetaParser := bagParser.on (BlockAlloc.bump.filled 0)

/-- The block of the new bag. -/
def bagGranted : BlockHeap × Nat := (⟨Mem.store (fun _ => 0) 1 (List.replicate 8 0), [(1, 8)]⟩, 1)

/-- The parse of the bag of 7 with zeroes: what is behind the array and behind its element, and the result. -/
theorem bagZeroes_parse :
    jsonGetObjectTypeWith bagZeroes bagParser.keys 0 (cellsText "Bag" (ascii "[7]")) = some (.ok 2) ∧
    (parseJsonField bagZeroes (objectProc bagZeroes bagParser.keys) bagField (zeroedBlock bagGranted 8)
      (ascii "[7]\x7d") 1).accepted.map (·.2) = some (ascii "\x7d") ∧
    (intrusivePart bagZeroes (objectProc bagZeroes bagParser.keys) bagField (zeroedBlock bagGranted 8)
      (ascii "7]\x7d") 1).accepted.map (·.2) = some (ascii "]\x7d") ∧
    (fieldArrayAdd bagZeroes bagField 4 (zeroedBlock bagGranted 8) 1).isSome = true ∧
    (metaParseJsonWith bagZeroes bagParser.keys bagParser.keys 0 ⟨fun _ => 0, []⟩
      (cellsText "Bag" (ascii "[7]"))).map (fun parsed => (parsed.ret, parsed.object)) = some (0, some 1) := by
  decide +kernel

/-- A fact about all calls that are reached, where a call leads to one. -/
theorem forall_reaches_one {P : MetaParser} {scan parse : UnsetKeys} {Q : ParseCall → Prop}
    {call first : ParseCall} (next : ∀ call', call.Next P scan parse call' ↔ call' = first) (here : Q call)
    (below : ∀ later, first.Reaches P scan parse later → Q later) :
    ∀ later, call.Reaches P scan parse later → Q later := by
  intro later reached
  rcases (reaches_one next).mp reached with rfl | reached
  · exact here
  · exact below later reached

/-- A result that was accepted. -/
theorem accepted_result {result : ParseResult} {rest : List UInt8}
    (known : result.accepted.map (·.2) = some rest) : ∃ heap, result = some (heap, .ok rest) := by
  obtain ⟨⟨heap, behind⟩, accepted, rfl⟩ := Option.map_eq_some_iff.mp known
  exact ⟨heap, accepted_eq_some.mp accepted⟩

theorem metaGetDescriptor_on (P : MetaParser) (A : BlockAlloc) (type : Nat) :
    metaGetDescriptor (P.on A).reg type = metaGetDescriptor P.reg type := rfl

theorem bag_number : metaGetDescriptor bagRegistry 1 = some bagNumber := rfl

/-- A number is one leaf. -/
theorem bag_leaf {kind : LeafKind} {offset : Nat} (leaf : bagRegistry.Leaf 1 kind offset) :
    kind = .bytes 4 ∧ offset = 0 := by
  cases leaf with
  | primitive found =>
    obtain rfl := Option.some.inj (bag_number.symm.trans found)
    exact ⟨rfl, rfl⟩
  | string found class_ | slice found class_ | raw found class_ =>
    obtain rfl := Option.some.inj (bag_number.symm.trans found)
    cases class_
  | array found member | field found member =>
    obtain rfl := Option.some.inj (bag_number.symm.trans found)
    cases member

/-- The calls of the parse of the bag of 7 are orderly, and its element is set. -/
theorem bagZeroes_calls : ∀ call, (ParseCall.document 0 ⟨fun _ => 0, []⟩ (cellsText "Bag" (ascii "[7]"))).Reaches
    bagZeroes bagParser.keys bagParser.keys call →
      call.Orderly bagRegistry ∧ call.ElementSet bagZeroes bagParser.keys bagParser.keys := by
  obtain ⟨scanned, behindArray, behindElement, added, -⟩ := bagZeroes_parse
  obtain ⟨-, opened, hintKey, skippedHint, cellsKey, bracket, -⟩ := bag_parse
  obtain ⟨heap₁, array⟩ := accepted_result behindArray
  obtain ⟨heap₂, element⟩ := accepted_result behindElement
  obtain ⟨place, added⟩ := Option.isSome_iff_exists.mp added
  have bag : metaGetDescriptor bagZeroes.reg 2 = some bagDescriptor :=
    (metaGetDescriptor_on bagParser _ 2).trans bag_found
  have number : metaGetDescriptor bagZeroes.reg bagField.type = some bagNumber :=
    (metaGetDescriptor_on bagParser _ 1).trans bag_number
  have alloc : bagZeroes.alloc.alloc ⟨fun _ => 0, []⟩ bagDescriptor.size = some bagGranted := rfl
  have closed : expectChar (charByte '\x7d') (skipWhitespace (ascii "\x7d")) = some [] := by decide +kernel
  have closedArray : expectChar (charByte ']') (ascii "]\x7d") = some (ascii "\x7d") := by decide +kernel
  have plain : peekChar (charByte '\x7b') (ascii "7]\x7d") = false := by decide +kernel
  have toIntrusive : ∀ call', (ParseCall.elements bagField 1 0 (zeroedBlock bagGranted 8) (ascii "7]\x7d")).Next
      bagZeroes bagParser.keys bagParser.keys call' ↔
        call' = .intrusive bagField (zeroedBlock bagGranted 8) (ascii "7]\x7d") 1 := fun call' => by
    have white : skipWhitespace (ascii "7]\x7d") = ascii "7]\x7d" := by decide +kernel
    have fixed : fixedPart bagZeroes (objectProc bagZeroes bagParser.keys) bagField 0 (zeroedBlock bagGranted 8)
        (skipWhitespace (ascii "7]\x7d")) 1 = some (zeroedBlock bagGranted 8, .ok (ascii "7]\x7d")) := by
      rw [white]
      exact fixedPart_plain rfl
    refine (next_element_last fixed element closedArray call').trans ?_
    exact ⟨fun either => either.elim (fun fixed => nomatch fixed.1) (·.2), fun same => Or.inr ⟨rfl, same⟩⟩
  refine forall_reaches_one (next_document scanned bag alloc) ⟨trivial, trivial⟩ ?_
  refine forall_reaches_one (next_object bag opened) ⟨trivial, trivial⟩ ?_
  refine forall_reaches_one (next_unknown hintKey bag_hint_unknown skippedHint) ⟨trivial, trivial⟩ ?_
  refine forall_reaches_one (next_last cellsKey bag_field array closed) ⟨trivial, trivial⟩ ?_
  refine forall_reaches_one (next_literal bracket (by decide)) ⟨fun single => ?_, trivial⟩ ?_
  · cases single.symm.trans bracket
  refine forall_reaches_one toIntrusive ⟨rfl, trivial⟩ ?_
  refine forall_reaches_one (next_added number added) ⟨⟨?_, fun element offset leaf => ?_⟩, ?_⟩
    fun later reached => ?_
  · have empty : metaArrayLen (zeroedBlock bagGranted 8).mem ((zeroedBlock bagGranted 8).mem.readNat 1 8) = 0 := by
      decide +kernel
    rw [empty]
    exact ⟨by decide +kernel, by decide⟩
  · cases (bag_leaf leaf).1
  · intro descriptor place' found _ kind offset leaf
    obtain rfl := Option.some.inj (number.symm.trans found)
    obtain ⟨rfl, rfl⟩ := bag_leaf ((leaf_on _).mp leaf)
    exact (plain_sets plain _ _ _).mpr ⟨plain, rfl, Or.inl ⟨rfl, rfl, fun char8 => nomatch char8⟩⟩
  · rw [(reaches_value plain).mp reached]
    exact ⟨trivial, trivial⟩

/-- The allocator goes by the blocks only. -/
theorem bump_sameGrants : BlockAlloc.bump.SameGrants .bump := fun heap twin size live => by
  show Option.map _ (ite _ _ _) = Option.map _ (ite _ _ _)
  rw [live]
  split <;> rfl

/-- No leftovers show in the bag of 7. -/
theorem leftoverFree_seven : LeftoverFree bagParser bagParser.keys bagParser.keys 0 ⟨fun _ => 0, []⟩
    (cellsText "Bag" (ascii "[7]")) := by
  obtain ⟨-, -, -, -, result⟩ := bagZeroes_parse
  obtain ⟨parsed, ran, same⟩ := Option.map_eq_some_iff.mp result
  obtain ⟨success, place⟩ := Prod.mk.inj same
  have calls := bagZeroes_calls
  have separate : BlockHeap.Separate ⟨fun _ => 0, []⟩ := fun _ member => nomatch member
  exact (leftoverFree_iff bagParser markFloats_readsTokens.advances bag_described bagParser.keys bagParser.keys 0 _
    separate bump_sameGrants _ parsed 1 ran success place
    fun call reached => (calls call reached).1).mpr fun call reached => (calls call reached).2

/-- A hive is an array of cells, which are two numbers. -/
def hiveTypes : List MetaDescriptor :=
  [defaultPrimitive "int32_t" 4 .i32,
   ⟨ascii "Cell", .object, 8, 0, .i8, [⟨ascii "a", 1, 0, 0, 0, none⟩, ⟨ascii "b", 1, 4, 0, 0, none⟩], .cstring⟩,
   ⟨ascii "Hive", .object, 8, 0, .i8, [⟨ascii "cells", 2, 0, 2, 0, none⟩], .cstring⟩]

def hiveParser : MetaParser :=
  ⟨64, zeroFloats, (metaRegisterAll (metaEmpty (.default .bump)) hiveTypes).1, .bump, []⟩

/-- The result of a parse of a hive of one cell whose second number is not named: the code, the object, the
length of the array, and the second number. -/
def hiveResult (byte : UInt8) : Option (Int × Option Nat × Option Nat × Nat × Nat) :=
  (metaParseJsonWith (hiveParser.on (BlockAlloc.bump.filled byte)) emptyKeys emptyKeys 0 ⟨fun _ => 0, []⟩
    (cellsText "Hive" (ascii "[\x7b\"a\":7\x7d]"))).map fun parsed =>
      (parsed.ret, parsed.object, parsed.type, metaArrayLen parsed.heap.mem (parsed.heap.mem.readNat 1 8),
        parsed.heap.mem.readNat (parsed.heap.mem.readNat 1 8 + 4) 4)

/-- **The number that is not named** is what the allocator left. -/
theorem hiveResult_eq : hiveResult 0 = some (0, some 1, some 3, 1, 0) ∧
    hiveResult 1 = some (0, some 1, some 3, 1, 0x01010101) := by
  decide +kernel

/-- **Leftovers show** in a cell whose second number is not named. -/
theorem leftover_shows : ¬ LeftoverFree hiveParser emptyKeys emptyKeys 0 ⟨fun _ => 0, []⟩
    (cellsText "Hive" (ascii "[\x7b\"a\":7\x7d]")) := by
  intro free
  obtain ⟨zeroes, ones⟩ := hiveResult_eq
  obtain ⟨first, ran, results⟩ := Option.map_eq_some_iff.mp zeroes
  obtain ⟨second, ran', results'⟩ := Option.map_eq_some_iff.mp ones
  obtain ⟨success, place, type, length, number⟩ := by simpa only [Prod.mk.injEq] using results
  obtain ⟨success', place', -, -, number'⟩ := by simpa only [Prod.mk.injEq] using results'
  obtain ⟨type', same, -, equal⟩ :=
    free _ _ (bump_sameGrants.fill_right 0) (bump_sameGrants.fill_right 1) first second
    1 1 ran success ran' success' place place'
  obtain rfl := Option.some.inj (same.symm.trans type)
  have hive : metaGetDescriptor hiveParser.reg 3 = some ⟨ascii "Hive", .object, 8, 3, .i8,
    [⟨ascii "cells", 2, 0, 2, 0, none⟩], .cstring⟩ := rfl
  have cell : metaGetDescriptor hiveParser.reg 2 = some ⟨ascii "Cell", .object, 8, 2, .i8,
    [⟨ascii "a", 1, 0, 0, 0, none⟩, ⟨ascii "b", 1, 4, 0, 0, none⟩], .cstring⟩ := rfl
  have int : metaGetDescriptor hiveParser.reg 1 = some { defaultPrimitive "int32_t" 4 .i32 with id := 1 } := rfl
  obtain ⟨-, -, -, elements⟩ := equal
  have array : hiveParser.reg.Leaf 3 (.array 2) 0 := .array hive List.mem_cons_self rfl
  have element := elements 2 0 array 0 (by rw [length]; exact Nat.one_pos)
  obtain ⟨bytes, -, -, -⟩ := element
  have leaf : hiveParser.reg.Leaf 2 (.bytes 4) (4 + (0 + 0)) :=
    .field cell (List.mem_cons_of_mem _ List.mem_cons_self) rfl rfl (.primitive int rfl)
  have loads := congrArg leValue (bytes 4 _ leaf)
  have first_ : leValue (first.heap.mem.load (first.heap.mem.readNat 1 8 + 4) 4) = 0 := number
  have second_ : leValue (second.heap.mem.load (second.heap.mem.readNat 1 8 + 4) 4) = 0x01010101 := number'
  simp only [elementAt, Nat.zero_mul, Nat.add_zero, first_, second_] at loads
  cases loads

end Vaudou
