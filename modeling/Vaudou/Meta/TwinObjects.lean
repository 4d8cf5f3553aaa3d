/-
**An object in two heaps with the same blocks.**

Two runs of the parser whose allocators grant the same blocks work on the same leaves at the same addresses.
A leaf is the same in both heaps (`SameCell`) once it was set. An element that was added and not set holds
what the allocators left, which is related by `R` (`Unset`): with `R` always true nothing is known of it, and
with `R` false on equal bytes it differs.

`Twins` is the invariant of the two runs for the leaves of one block: those that are known are the same,
those that are not are unset, and the intrusive arrays that they point to have the same header, with
elements that are all the same, or with one leaf that is unset.

* `Twins.set` — a leaf is set in both heaps.
* `Twins.write`, `Twins.string` — so it is by the value of a primitive type, and by that of a string.
-/

import Vaudou.Foundation.TwinHeaps
import Vaudou.Meta.Contents

namespace Vaudou

open Vaudou.Memory Vaudou.Text

/-! ### Leaves in two heaps -/

/-- **A leaf is the same in both heaps.** A string is in a block that is not written any more. -/
def SameCell (written : Nat → Prop) (heap twin : BlockHeap) : LeafKind → (a : Nat) → Prop
  | .bytes width, a => Same heap.mem twin.mem a width
  | .string, a => Same heap.mem twin.mem a 8 ∧ (heap.mem.readNat a 8 = 0 ∨ ∃ content,
      ¬ written (heap.mem.readNat a 8) ∧ (heap.mem.readNat a 8, content.length + 1) ∈ heap.live ∧
        IsCString heap.mem (heap.mem.readNat a 8) content ∧
          Same heap.mem twin.mem (heap.mem.readNat a 8) (content.length + 1))
  | .array _, _ => False

/-- The pointer of an array, which has no value of its own. -/
def LeafKind.isArray : LeafKind → Bool
  | .array _ => true
  | .bytes _ | .string => false

/-- A leaf that no one set. -/
def Unset (R : UInt8 → UInt8 → Prop) (heap twin : BlockHeap) (kind : LeafKind) (a : Nat) : Prop :=
  ∀ x, Within a kind.width x → R (heap.mem x) (twin.mem x)

/-- **A step in both heaps**, and the blocks that may be written before and after it: texts are kept. -/
structure TwinStep (written written' dropped changed : Nat → Prop) (heap twin heap' twin' : BlockHeap) :
    Prop where
  keeps : heap.Keeps dropped changed heap'
  keeps' : twin.Keeps dropped changed twin'
  live : twin.live = heap.live
  separate : heap.Separate
  dropped : ∀ p, dropped p → written p ∨ p = 0
  changed : ∀ x, changed x → ∃ block ∈ heap.live, written block.1 ∧ InBlock block x
  texts : ∀ block ∈ heap.live, 0 < block.2 → ¬ written block.1 → ¬ written' block.1

section Cells

variable {R : UInt8 → UInt8 → Prop} {written written' dropped changed : Nat → Prop}
  {heap twin heap' twin' : BlockHeap} {kind : LeafKind} {a x : Nat} {block : Nat × Nat}

/-- A byte of a block that is kept. -/
theorem TwinStep.same (step : TwinStep written written' dropped changed heap twin heap' twin')
    (member : block ∈ heap.live) (kept : ¬ dropped block.1) (inside : InBlock block x) (left : ¬ changed x) :
    heap'.mem x = heap.mem x ∧ twin'.mem x = twin.mem x :=
  ⟨(step.keeps block member kept).2 x inside left,
    (step.keeps' block (step.live ▸ member) kept).2 x inside left⟩

/-- A text is kept. -/
theorem TwinStep.text (step : TwinStep written written' dropped changed heap twin heap' twin')
    (member : block ∈ heap.live) (text : ¬ written block.1) (some_ : block.1 ≠ 0) (inside : InBlock block x) :
    heap'.mem x = heap.mem x ∧ twin'.mem x = twin.mem x := by
  refine step.same member (fun dropped => (step.dropped _ dropped).elim text some_) inside fun changed => ?_
  obtain ⟨other, member', writable, inside'⟩ := step.changed x changed
  rw [step.separate other member' block member x inside' inside] at writable
  exact text writable

/-- The leaf is in a block that is kept, and no byte of it is changed. -/
def TwinStep.Spares (_ : TwinStep written written' dropped changed heap twin heap' twin') (a n : Nat) : Prop :=
  ∃ block ∈ heap.live, ¬ dropped block.1 ∧ ∀ x, Within a n x → InBlock block x ∧ ¬ changed x

variable {step : TwinStep written written' dropped changed heap twin heap' twin'}

theorem TwinStep.Spares.same {n : Nat} (spares : step.Spares a n) (inside : Within a n x) :
    heap'.mem x = heap.mem x ∧ twin'.mem x = twin.mem x := by
  obtain ⟨block, member, kept, left⟩ := spares
  exact step.same member kept (left x inside).1 (left x inside).2

theorem TwinStep.Spares.part {n b k : Nat} (spares : step.Spares a n) (low : a ≤ b) (high : b + k ≤ a + n) :
    step.Spares b k := by
  obtain ⟨block, member, kept, left⟩ := spares
  exact ⟨block, member, kept, fun x inside => left x ⟨low.trans inside.1, by have := inside.2; omega⟩⟩

/-- Bytes that are the same stay the same. -/
theorem TwinStep.Spares.keep {n : Nat} (spares : step.Spares a n) (same : Same heap.mem twin.mem a n) :
    Same heap'.mem twin'.mem a n := fun x low high => by
  rw [(spares.same ⟨low, high⟩).1, (spares.same ⟨low, high⟩).2, same x low high]

theorem TwinStep.Spares.readNat {n : Nat} (spares : step.Spares a n) :
    heap'.mem.readNat a n = heap.mem.readNat a n :=
  readNat_congr fun _ low high => (spares.same ⟨low, high⟩).1

/-- The `n` bytes from `a` on are those from `b` on, in both heaps. -/
def Moved (heap twin heap' twin' : BlockHeap) (a b n : Nat) : Prop :=
  ∀ i < n, heap'.mem (b + i) = heap.mem (a + i) ∧ twin'.mem (b + i) = twin.mem (a + i)

theorem TwinStep.Spares.moved {n : Nat} (spares : step.Spares a n) : Moved heap twin heap' twin' a a n :=
  fun _ inside => spares.same ⟨by omega, by omega⟩

theorem Moved.same {b n : Nat} (moved : Moved heap twin heap' twin' a b n) (same : Same heap.mem twin.mem a n) :
    Same heap'.mem twin'.mem b n := fun x low high => by
  obtain ⟨i, rfl⟩ : ∃ i, x = b + i := ⟨x - b, by omega⟩
  rw [(moved i (by omega)).1, (moved i (by omega)).2, same (a + i) (by omega) (by omega)]

theorem Moved.readNat {b n : Nat} (moved : Moved heap twin heap' twin' a b n) :
    heap'.mem.readNat b n = heap.mem.readNat a n := by
  unfold Mem.readNat Mem.load
  exact congrArg leValue (List.map_congr_left fun i member => (moved i (List.mem_range.mp member)).1)

theorem Moved.part {b n k m : Nat} (moved : Moved heap twin heap' twin' a b n) (inside : k + m ≤ n) :
    Moved heap twin heap' twin' (a + k) (b + k) m := fun i below => by
  rw [Nat.add_assoc, Nat.add_assoc]
  exact moved (k + i) (by omega)

/-- **A leaf that is moved** stays the same. -/
theorem SameCell.move {b : Nat} (step : TwinStep written written' dropped changed heap twin heap' twin')
    (moved : Moved heap twin heap' twin' a b kind.width) (same : SameCell written heap twin kind a) :
    SameCell written' heap' twin' kind b := by
  cases kind with
  | bytes width => exact moved.same same
  | array type => exact same
  | string =>
    obtain ⟨pointers, text⟩ := same
    have pointer : Moved heap twin heap' twin' a b 8 := moved
    refine ⟨pointer.same pointers, ?_⟩
    rw [pointer.readNat]
    by_cases null : heap.mem.readNat a 8 = 0
    · exact Or.inl null
    · obtain ⟨content, fixed, member, is, same⟩ := text.resolve_left null
      have bytes : ∀ x, heap.mem.readNat a 8 ≤ x → x < heap.mem.readNat a 8 + (content.length + 1) →
          heap'.mem x = heap.mem x ∧ twin'.mem x = twin.mem x :=
        fun x low high => step.text member fixed null ⟨low, high⟩
      have still : ¬ written' (heap.mem.readNat a 8) :=
        step.texts (heap.mem.readNat a 8, content.length + 1) member (Nat.succ_pos _) fixed
      have kept : (heap.mem.readNat a 8, content.length + 1) ∈ heap'.live :=
        (step.keeps _ member fun dropped => (step.dropped _ dropped).elim fixed null).1
      have held : IsCString heap'.mem (heap.mem.readNat a 8) content :=
        is.congr fun x low high => (bytes x low (by omega)).1
      refine Or.inr ⟨content, still, kept, held, fun x low high => ?_⟩
      rw [(bytes x low high).1, (bytes x low high).2, same x low high]

theorem SameCell.keep (spares : step.Spares a kind.width) (same : SameCell written heap twin kind a) :
    SameCell written' heap' twin' kind a := same.move step spares.moved

theorem Unset.move {b : Nat} (moved : Moved heap twin heap' twin' a b kind.width)
    (unset : Unset R heap twin kind a) : Unset R heap' twin' kind b := fun x inside => by
  obtain ⟨i, rfl⟩ : ∃ i, x = b + i := ⟨x - b, by have := inside.1; omega⟩
  have below : i < kind.width := by
    have := inside.2
    omega
  rw [(moved i below).1, (moved i below).2]
  exact unset (a + i) ⟨by omega, by omega⟩

theorem Unset.keep (spares : step.Spares a kind.width) (unset : Unset R heap twin kind a) :
    Unset R heap' twin' kind a := unset.move spares.moved

end Cells

/-! ### Arrays in two heaps -/

section Arrays

variable (reg : MetaRegistry) (R : UInt8 → UInt8 → Prop) (written : Nat → Prop) (region : Nat)
  (heap twin : BlockHeap)

/-- **An array of the default procedures** in its block at `p`, in both heaps: the header, room for `cap`
elements, and behind the elements what the allocators left. -/
structure HeldArray (type a p n cap : Nat) : Prop where
  written : written p
  other : p ≠ region
  block : (p, reg.typeSize type * cap + 8) ∈ heap.live
  pointer : heap.mem.readNat a 8 = p + 8
  count : heap.mem.readNat p 4 = n
  capacity : heap.mem.readNat (p + 4) 4 = cap
  header : Same heap.mem twin.mem p 8
  fits : n ≤ cap
  least : 4 ≤ cap
  small : reg.typeSize type * cap + 8 < 2 ^ 32 ∧ cap < 2 ^ 31
  slack : ∀ x, p + 8 + n * reg.typeSize type ≤ x → x < p + (reg.typeSize type * cap + 8) →
    R (heap.mem x) (twin.mem x)

/-- The first `n` elements behind the header at `p` are the same. -/
def SoundElements (type p n : Nat) : Prop :=
  ∀ i < n, ∀ kind offset, reg.Leaf type kind offset →
    SameCell written heap twin kind (p + 8 + i * reg.typeSize type + offset)

/-- A leaf of them is unset. -/
def SpoiledElement (type p n : Nat) : Prop :=
  ∃ i < n, ∃ kind offset, reg.Leaf type kind offset ∧ kind.isArray = false ∧
    Unset R heap twin kind (p + 8 + i * reg.typeSize type + offset)

/-- **The array whose pointer is at `a`**: null, or in a block of its own. -/
def ArrayAt (sound : Prop) (type a : Nat) : Prop :=
  Same heap.mem twin.mem a 8 ∧ ((heap.mem.readNat a 8 = 0 ∧ sound) ∨ ∃ p n cap,
    HeldArray reg R written region heap twin type a p n cap ∧
      (sound → SoundElements reg written heap twin type p n) ∧
      (¬ sound → SpoiledElement reg R heap twin type p n))

variable {reg R written region heap twin} {written' dropped changed : Nat → Prop} {heap' twin' : BlockHeap}
  {type a p n cap m : Nat} {sound : Prop}
  {step : TwinStep written written' dropped changed heap twin heap' twin'}

/-- An element is in the block of its array. -/
theorem element_in_array {size i offset width : Nat} (inside : i < m) (fits : offset + width ≤ size) :
    i * size + offset + width ≤ m * size := by
  have whole : (i + 1) * size ≤ m * size := Nat.mul_le_mul_right size inside
  rw [Nat.succ_mul] at whole
  omega

theorem SoundElements.move {q : Nat} (described : reg.Described)
    (step : TwinStep written written' dropped changed heap twin heap' twin')
    (moved : Moved heap twin heap' twin' (p + 8) (q + 8) (m * reg.typeSize type))
    (same : SoundElements reg written heap twin type p m) : SoundElements reg written' heap' twin' type q m := by
  intro i inside kind offset leaf
  have within := element_in_array inside (leaf.inside described).1
  have part := moved.part (k := i * reg.typeSize type + offset) (m := kind.width) (by omega)
  rw [← Nat.add_assoc, ← Nat.add_assoc] at part
  exact (same i inside kind offset leaf).move step part

theorem SpoiledElement.move {q : Nat} (described : reg.Described)
    (moved : Moved heap twin heap' twin' (p + 8) (q + 8) (m * reg.typeSize type))
    (spoiled : SpoiledElement reg R heap twin type p m) : SpoiledElement reg R heap' twin' type q m := by
  obtain ⟨i, inside, kind, offset, leaf, value, unset⟩ := spoiled
  have within := element_in_array inside (leaf.inside described).1
  have part := moved.part (k := i * reg.typeSize type + offset) (m := kind.width) (by omega)
  rw [← Nat.add_assoc, ← Nat.add_assoc] at part
  exact ⟨i, inside, kind, offset, leaf, value, unset.move part⟩

/-- The header of an array, and what is behind its elements, are left alone. -/
theorem HeldArray.keep (held : HeldArray reg R written region heap twin type a p n cap)
    (kept : ¬ dropped p) (still : written' p) (pointer : step.Spares a 8)
    (header : step.Spares p 8)
    (slack : ∀ x, p + 8 + n * reg.typeSize type ≤ x → x < p + (reg.typeSize type * cap + 8) → ¬ changed x) :
    HeldArray reg R written' region heap' twin' type a p n cap where
  written := still
  other := held.other
  block := (step.keeps _ held.block kept).1
  pointer := pointer.readNat.trans held.pointer
  count := (header.part (k := 4) le_rfl (by omega)).readNat.trans held.count
  capacity := (header.part (k := 4) (by omega) (by omega)).readNat.trans held.capacity
  header := header.keep held.header
  fits := held.fits
  least := held.least
  small := held.small
  slack x low high := by
    obtain ⟨same, same'⟩ := step.same held.block kept ⟨by show p ≤ x; omega, high⟩ (slack x low high)
    rw [same, same']
    exact held.slack x low high

/-- The elements of an array are in its block. -/
theorem HeldArray.elements_fit (held : HeldArray reg R written region heap twin type a p n cap) :
    n * reg.typeSize type ≤ reg.typeSize type * cap := by
  rw [Nat.mul_comm]
  exact Nat.mul_le_mul_left _ held.fits

/-- The length of the array. -/
theorem HeldArray.length (held : HeldArray reg R written region heap twin type a p n cap) :
    metaArrayLen heap.mem (heap.mem.readNat a 8) = n := by
  rw [held.pointer, metaArrayLen, if_neg (Nat.succ_ne_zero _), Nat.add_sub_cancel]
  exact held.count

/-- **An array that is left alone** stays as it is. -/
theorem ArrayAt.keep (described : reg.Described) (array : ArrayAt reg R written region heap twin sound type a)
    (pointer : step.Spares a 8) (still : ∀ p, written p → ¬ dropped p → written' p)
    (block : ∀ p n cap, HeldArray reg R written region heap twin type a p n cap →
      ¬ dropped p ∧ ∀ x, InBlock (p, reg.typeSize type * cap + 8) x → ¬ changed x) :
    ArrayAt reg R written' region heap' twin' sound type a := by
  obtain ⟨pointers, ⟨null, sound⟩ | ⟨p, n, cap, held, same, spoiled⟩⟩ := array
  · exact ⟨pointer.keep pointers, Or.inl ⟨pointer.readNat.trans null, sound⟩⟩
  · obtain ⟨kept, left⟩ := block p n cap held
    have whole : step.Spares p (reg.typeSize type * cap + 8) :=
      ⟨_, held.block, kept, fun x inside => ⟨inside, left x inside⟩⟩
    have fit := held.elements_fit
    have elements : step.Spares (p + 8) (n * reg.typeSize type) := whole.part (by omega) (by omega)
    refine ⟨pointer.keep pointers, Or.inr ⟨p, n, cap, held.keep kept (still p held.written kept) pointer
      (whole.part le_rfl (by omega)) (fun x low high => left x ⟨by show p ≤ x; omega, high⟩),
      fun sound => (same sound).move described step elements.moved,
      fun unsound => (spoiled unsound).move described elements.moved⟩⟩

end Arrays

/-! ### The invariant of two runs -/

/-- Where two runs are: the blocks that may be written, the leaves that were set, the arrays whose elements
were all set, and the heaps. -/
structure TwinState where
  written : Nat → Prop
  known : LeafKind → Nat → Prop
  sound : Nat → Prop
  heap : BlockHeap
  twin : BlockHeap

/-- **The invariant of two runs** for leaves in one block. Where arrays are among them all leaves are known: the
block was zeroed. -/
structure Twins (reg : MetaRegistry) (R : UInt8 → UInt8 → Prop) (region : Nat × Nat)
    (cells : LeafKind → Nat → Prop) (σ : TwinState) : Prop where
  live : σ.twin.live = σ.heap.live
  separate : σ.heap.Separate
  blocks : ∀ p, σ.written p → 0 < p ∧ ∃ n, 0 < n ∧ (p, n) ∈ σ.heap.live
  home : σ.written region.1 ∧ region ∈ σ.heap.live
  inside : ∀ {kind a}, cells kind a → ∀ x, Within a kind.width x → InBlock region x
  apart : ∀ {kind kind' a a'}, cells kind a → cells kind' a' → (kind = kind' ∧ a = a') ∨
    a + kind.width ≤ a' ∨ a' + kind'.width ≤ a
  same : ∀ {kind a}, cells kind a → kind.isArray = false → σ.known kind a →
    SameCell σ.written σ.heap σ.twin kind a
  unset : ∀ {kind a}, cells kind a → kind.isArray = false → ¬ σ.known kind a → Unset R σ.heap σ.twin kind a
  arrays : ∀ {type a}, cells (.array type) a →
    ArrayAt reg R σ.written region.1 σ.heap σ.twin (σ.sound a) type a
  distinct : ∀ {type type' a a'}, cells (.array type) a → cells (.array type') a' →
    σ.heap.mem.readNat a 8 = σ.heap.mem.readNat a' 8 → σ.heap.mem.readNat a 8 = 0 ∨ a = a'
  zeroed : ∀ {type a}, cells (.array type) a → ∀ kind a', cells kind a' → σ.known kind a'

/-- The bytes of the leaves. -/
def Covered (cells : LeafKind → Nat → Prop) (x : Nat) : Prop := ∃ kind a, cells kind a ∧ Within a kind.width x

/-- Every array holds elements that were all set. -/
def TwinState.AllSound (cells : LeafKind → Nat → Prop) (σ : TwinState) : Prop :=
  ∀ type a, cells (.array type) a → σ.sound a

/-- **What a part of the two runs does**: it keeps the invariant, and sets `sets`; the elements that it adds are
all set if `good`. Where there are no arrays it writes nothing but the leaves. -/
structure TwinRun (reg : MetaRegistry) (R : UInt8 → UInt8 → Prop) (region : Nat × Nat)
    (cells sets : LeafKind → Nat → Prop) (good : Prop) (σ σ' : TwinState) : Prop where
  twins : Twins reg R region cells σ'
  known : ∀ kind a, cells kind a → (σ'.known kind a ↔ σ.known kind a ∨ sets kind a)
  sound : σ'.AllSound cells ↔ σ.AllSound cells ∧ good
  frame : (∀ type a, ¬ cells (.array type) a) → σ'.written = σ.written ∧
    σ.heap.Keeps Nowhere (Covered cells) σ'.heap ∧ σ.twin.Keeps Nowhere (Covered cells) σ'.twin

/-- A leaf is set. -/
def TwinState.set (σ : TwinState) (kind : LeafKind) (a : Nat) (heap twin : BlockHeap) : TwinState :=
  { σ with known := fun kind' x => σ.known kind' x ∨ (kind' = kind ∧ x = a), heap := heap, twin := twin }

section Runs

variable {reg : MetaRegistry} {R : UInt8 → UInt8 → Prop} {region : Nat × Nat}
  {cells sets sets' : LeafKind → Nat → Prop} {good good' : Prop} {σ σ' σ'' : TwinState} {kind : LeafKind} {a : Nat}

theorem TwinRun.refl (twins : Twins reg R region cells σ) :
    TwinRun reg R region cells (fun _ _ => False) True σ σ where
  twins := twins
  known _ _ _ := (or_iff_left id).symm
  sound := (and_iff_left trivial).symm
  frame _ := ⟨rfl, .refl _, .refl _⟩

theorem TwinRun.trans (first : TwinRun reg R region cells sets good σ σ')
    (second : TwinRun reg R region cells sets' good' σ' σ'') :
    TwinRun reg R region cells (fun kind a => sets kind a ∨ sets' kind a) (good ∧ good') σ σ'' where
  twins := second.twins
  known kind a cell := by rw [second.known kind a cell, first.known kind a cell, or_assoc]
  sound := by rw [second.sound, first.sound, and_assoc]
  frame none_ := by
    obtain ⟨written, heap, twin⟩ := first.frame none_
    obtain ⟨written', heap', twin'⟩ := second.frame none_
    exact ⟨written'.trans written, heap.trans heap', twin.trans twin'⟩

theorem TwinRun.congr (run : TwinRun reg R region cells sets good σ σ')
    (same : ∀ kind a, sets kind a ↔ sets' kind a) (same' : good ↔ good') :
    TwinRun reg R region cells sets' good' σ σ' where
  twins := run.twins
  known kind a cell := by rw [run.known kind a cell, same]
  sound := by rw [run.sound, same']
  frame := run.frame

/-- A block that may be written is not one that is granted. -/
theorem Twins.new_block {A : BlockAlloc} {heap' : BlockHeap} {size p : Nat} (twins : Twins reg R region cells σ)
    (granted : A.alloc σ.heap size = some (heap', p)) (some_ : 0 < size) : ¬ σ.written p := fun written => by
  obtain ⟨-, n, positive, member⟩ := twins.blocks p written
  rcases A.new_start granted member positive with empty | other
  · omega
  · exact other rfl

/-- **A leaf is set in both heaps**: the others stay as they are. -/
theorem Twins.set {heap' twin' : BlockHeap} (described : reg.Described) (twins : Twins reg R region cells σ)
    (cell : cells kind a) (value : kind.isArray = false)
    (keeps : σ.heap.Keeps Nowhere (Within a kind.width) heap')
    (keeps' : σ.twin.Keeps Nowhere (Within a kind.width) twin') (live : twin'.live = heap'.live)
    (separate : heap'.Separate) (same : SameCell σ.written heap' twin' kind a) :
    TwinRun reg R region cells (fun kind' x => kind' = kind ∧ x = a) True σ (σ.set kind a heap' twin') := by
  have step : TwinStep σ.written σ.written Nowhere (Within a kind.width) σ.heap σ.twin heap' twin' :=
    ⟨keeps, keeps', twins.live, twins.separate, fun _ none_ => none_.elim,
      fun x inside => ⟨region, twins.home.2, twins.home.1, twins.inside cell x inside⟩,
      fun _ _ _ text => text⟩
  have others : ∀ {kind' a'}, cells kind' a' → ¬ (kind' = kind ∧ a' = a) → step.Spares a' kind'.width := by
    intro kind' a' cell' other
    refine ⟨region, twins.home.2, id, fun x inside => ⟨twins.inside cell' x inside, fun changed => ?_⟩⟩
    have apart := (twins.apart cell cell').resolve_left fun same => other ⟨same.1.symm, same.2.symm⟩
    have low := inside.1
    have high := inside.2
    have low' := changed.1
    have high' := changed.2
    omega
  have pointers : ∀ {type a'}, cells (.array type) a' → step.Spares a' 8 := by
    intro type a' cell'
    refine others cell' fun same => ?_
    rw [← same.1] at value
    cases value
  refine ⟨⟨live, separate, fun p written => ?_, ⟨twins.home.1, (keeps _ twins.home.2 id).1⟩, twins.inside,
    twins.apart, fun {kind' a'} cell' value' known => ?_, fun {kind' a'} cell' value' unknown => ?_,
    fun {type a'} cell' => ?_, fun {type type' a₁ a₂} cell₁ cell₂ equal => ?_,
    fun cell' kind₂ a₂ cell₂ => Or.inl (twins.zeroed cell' kind₂ a₂ cell₂)⟩, fun _ _ _ => Iff.rfl,
    (and_iff_left trivial).symm, fun _ => ⟨rfl, ?_, ?_⟩⟩
  · obtain ⟨positive, n, some_, member⟩ := twins.blocks p written
    exact ⟨positive, n, some_, (keeps _ member id).1⟩
  · by_cases this : kind' = kind ∧ a' = a
    · rw [this.1, this.2]
      exact same
    · exact (twins.same cell' value' (known.resolve_right this)).keep (others cell' this)
  · have unknown' := not_or.mp unknown
    exact (twins.unset cell' value' unknown'.1).keep (others cell' unknown'.2)
  · refine (twins.arrays cell').keep described (pointers cell') (fun _ written _ => written)
      fun p n cap held => ⟨id, fun x inside changed => ?_⟩
    have meet := twins.separate _ held.block _ twins.home.2 x inside (twins.inside cell x changed)
    exact held.other (congrArg Prod.fst meet)
  · have first : heap'.mem.readNat a₁ 8 = _ := (pointers cell₁).readNat
    have second : heap'.mem.readNat a₂ 8 = _ := (pointers cell₂).readNat
    show heap'.mem.readNat a₁ 8 = 0 ∨ _
    rw [show (σ.set kind a heap' twin').heap = heap' from rfl, first, second] at equal
    rw [first]
    exact twins.distinct cell₁ cell₂ equal
  · exact keeps.mono fun x inside => ⟨kind, a, cell, inside⟩
  · exact keeps'.mono fun x inside => ⟨kind, a, cell, inside⟩

/-- **The value of a primitive type** is written. -/
theorem Twins.write {mem mem' : Mem} {width : Nat} (described : reg.Described)
    (twins : Twins reg R region cells σ) (cell : cells (.bytes width) a)
    (change : ChangedWithin σ.heap.mem mem a width) (change' : ChangedWithin σ.twin.mem mem' a width)
    (same : Same mem mem' a width) :
    TwinRun reg R region cells (fun kind' x => kind' = .bytes width ∧ x = a) True σ
      (σ.set (.bytes width) a { σ.heap with mem := mem } { σ.twin with mem := mem' }) :=
  twins.set described cell rfl (.write change) (.write change') twins.live twins.separate same

/-- **A string** is written to its pointer and to a block of its own. -/
theorem Twins.string {A B : BlockAlloc} {granted granted' : BlockHeap} {p : Nat} {content : List UInt8}
    (described : reg.Described) (twins : Twins reg R region cells σ) (cell : cells .string a)
    (alloc : A.alloc σ.heap (content.length + 1) = some (granted, p))
    (alloc' : B.alloc σ.twin (content.length + 1) = some (granted', p)) (nonzero : 0 ∉ content) :
    TwinRun reg R region cells (fun kind' x => kind' = .string ∧ x = a) True σ
      (σ.set .string a { granted with mem := (granted.mem.writeNat a 8 p).store p (content ++ [0]) }
        { granted' with mem := (granted'.mem.writeNat a 8 p).store p (content ++ [0]) }) := by
  have length : (content ++ [0]).length = content.length + 1 := by
    rw [List.length_append, List.length_singleton]
  have bounded := A.bounded alloc
  have owned : ∀ x, Within a 8 x → σ.heap.Owns x :=
    fun x inside => ⟨region, twins.home.2, twins.inside cell x inside⟩
  have apart : a + 8 ≤ p ∨ p + (content.length + 1) ≤ a := by
    by_contra meet
    by_cases below : p ≤ a
    · exact A.apart alloc a below (by omega) (owned a ⟨le_rfl, by omega⟩)
    · exact A.apart alloc p le_rfl (by omega) (owned p ⟨by omega, by omega⟩)
  have keeps : ∀ {C : BlockAlloc} {heap next : BlockHeap},
      C.alloc heap (content.length + 1) = some (next, p) → heap.Keeps Nowhere (Within a 8)
        { next with mem := (next.mem.writeNat a 8 p).store p (content ++ [0]) } := by
    intro C heap next alloc block member kept
    have grant : heap.Keeps Nowhere (Within a 8) next := .alloc alloc
    obtain ⟨member', same⟩ := grant block member kept
    refine ⟨member', fun x inside outside => ?_⟩
    show (next.mem.writeNat a 8 p).store p (content ++ [0]) x = heap.mem x
    rw [BlockAlloc.store_outside alloc length.le ⟨block, member, inside⟩,
      writeNat_changedWithin next.mem a 8 p x (by unfold Within at outside; omega)]
    exact same x inside outside
  have pointer : ∀ next : BlockHeap,
      Same (next.mem.writeNat a 8 p) ((next.mem.writeNat a 8 p).store p (content ++ [0])) a 8 := fun next =>
    (store_changedWithin _ p (content ++ [0])).same (by rw [length]; exact apart)
  have leads : ((granted.mem.writeNat a 8 p).store p (content ++ [0])).readNat a 8 = p := by
    rw [readNat_congr (pointer granted)]
    exact readNat_writeNat_lt (by omega)
  have separate : granted.Separate := twins.separate.alloc alloc
  refine twins.set described cell rfl (keeps alloc) (keeps alloc') ?_ separate ⟨?_, Or.inr ?_⟩
  · show granted'.live = granted.live
    rw [A.live alloc, B.live alloc', twins.live]
  · intro x low high
    obtain ⟨i, rfl⟩ : ∃ i, x = a + i := ⟨x - a, by omega⟩
    have inside : i < (leBytes 8 p).length := by
      rw [leBytes_length]
      omega
    show (granted'.mem.writeNat a 8 p).store p _ (a + i) = (granted.mem.writeNat a 8 p).store p _ (a + i)
    rw [pointer granted _ low high, pointer granted' _ low high, Mem.writeNat, Mem.writeNat,
      store_inside inside, store_inside inside]
  · show ∃ content', ¬ σ.written (((granted.mem.writeNat a 8 p).store p (content ++ [0])).readNat a 8) ∧ _
    rw [leads]
    refine ⟨content, twins.new_block alloc (Nat.succ_pos _), ?_,
      isCString_store _ p nonzero (by omega), fun x low high => ?_⟩
    · show (p, content.length + 1) ∈ granted.live
      rw [A.live alloc]
      exact List.mem_cons_self
    · obtain ⟨i, rfl⟩ : ∃ i, x = p + i := ⟨x - p, by omega⟩
      have inside : i < (content ++ [0]).length := by
        rw [length]
        omega
      show (granted'.mem.writeNat a 8 p).store p _ (p + i) = (granted.mem.writeNat a 8 p).store p _ (p + i)
      rw [store_inside inside, store_inside inside]

end Runs

end Vaudou
