/-
**An element is added in two heaps.**

Where the array is full, or is not there yet, `vd_meta__intrusive_array_add_default_proc` moves it to a new
block (`movedArray`): the header and the elements are copied, the rest is what the allocator left. Where there
is room only the length is written. `TwinAdded` is what the two runs have in common behind it, and the new
element is unset in both.

* `Twins.add` — two runs add an element to the same array.
-/

import Vaudou.Meta.TwinObjects

namespace Vaudou

open Vaudou.Memory Vaudou.Text

/-! ### The procedure -/

/-- An array of `cap` elements in a granted block, behind the bytes of the old one; `a` is where its pointer
is, and it has one element more. -/
def movedArray (granted : BlockHeap × Nat) (a cap : Nat) (front : List UInt8) : BlockHeap :=
  let mem := ((granted.1.mem.store granted.2 front).writeNat (granted.2 + 4) 4 cap).writeNat a 8 (granted.2 + 8)
  let array := mem.readNat a 8
  { granted.1 with mem := mem.writeNat (array - 8) 4 ((mem.readNat (array - 8) 4 + 1) % 2 ^ 32) }

section Procedure

variable {A : BlockAlloc} {heap : BlockHeap} {a size p n cap : Nat}

/-- The first element: a block for four. -/
theorem intrusiveArrayAdd_first (null : heap.mem.readNat a 8 = 0) (small : size * 4 + 8 < 2 ^ 32) :
    intrusiveArrayAdd A heap a size =
      (A.alloc heap (size * 4 + 8)).map fun granted => movedArray granted a 4 (leBytes 4 0) := by
  have element : size % 2 ^ 32 = size := Nat.mod_eq_of_lt (by omega)
  have four : size * 4 % 2 ^ 32 = size * 4 := Nat.mod_eq_of_lt (by omega)
  have starts : metaArrayGrow A heap 0 size 1 0 = (A.realloc heap 0 0 (size * 4 % 2 ^ 32 + 8)).map fun granted =>
      ({ granted.1 with mem := (granted.1.mem.writeNat granted.2 4 0).writeNat (granted.2 + 4) 4 4 },
        granted.2 + 8) := rfl
  unfold intrusiveArrayAdd
  simp only [null, true_or, if_true, element, starts, four, BlockAlloc.realloc, if_neg (Nat.succ_ne_zero _),
    release_null, Nat.zero_min]
  cases A.alloc heap (size * 4 + 8) with
  | none => rfl
  | some granted =>
    have copied : heap.mem.load 0 0 = [] := rfl
    simp only [Option.map_some, copied, store_nil]
    rfl

/-- A full array is moved. -/
theorem intrusiveArrayAdd_full (pointer : heap.mem.readNat a 8 = p + 8) (count : heap.mem.readNat p 4 = n)
    (capacity : heap.mem.readNat (p + 4) 4 = n) (least : 4 ≤ n) (few : 2 * n < 2 ^ 32)
    (small : size * (2 * n) + 8 < 2 ^ 32) :
    intrusiveArrayAdd A heap a size = (A.alloc (heap.release p) (size * (2 * n) + 8)).map fun granted =>
      movedArray granted a (2 * n) (heap.mem.load p (size * n + 8)) := by
  have length : metaArrayLen heap.mem (p + 8) = n := by
    rw [metaArrayLen, if_neg (Nat.succ_ne_zero _), Nat.add_sub_cancel]
    exact count
  have room : metaArrayCap heap.mem (p + 8) = n := by
    rw [metaArrayCap, if_neg (Nat.succ_ne_zero _), show p + 8 - 4 = p + 4 by omega]
    exact capacity
  have atMost : size ≤ size * (2 * n) := Nat.le_mul_of_pos_right size (by omega)
  have half : size * n ≤ size * (2 * n) := Nat.mul_le_mul_left size (by omega)
  have element : size % 2 ^ 32 = size := Nat.mod_eq_of_lt (by omega)
  have next : (n + 1) % 2 ^ 32 = n + 1 := Nat.mod_eq_of_lt (by omega)
  have old : size * n % 2 ^ 32 = size * n := Nat.mod_eq_of_lt (by omega)
  have new : size * (2 * n) % 2 ^ 32 = size * (2 * n) := Nat.mod_eq_of_lt (by omega)
  unfold intrusiveArrayAdd
  simp only [pointer, length, room, next, Nat.lt_succ_self, or_true, if_true, element,
    metaArrayGrow_doubles length room least few, old, new, BlockAlloc.realloc, if_neg (Nat.succ_ne_zero _),
    Nat.min_eq_left (Nat.add_le_add_right half 8)]
  cases A.alloc (heap.release p) (size * (2 * n) + 8) <;> rfl

/-- Where there is room the length is written. -/
theorem intrusiveArrayAdd_room (pointer : heap.mem.readNat a 8 = p + 8) (count : heap.mem.readNat p 4 = n)
    (capacity : heap.mem.readNat (p + 4) 4 = cap) (room : n < cap) (few : cap < 2 ^ 31) :
    intrusiveArrayAdd A heap a size = some { heap with mem := heap.mem.writeNat p 4 (n + 1) } := by
  have length : metaArrayLen heap.mem (p + 8) = n := by
    rw [metaArrayLen, if_neg (Nat.succ_ne_zero _), Nat.add_sub_cancel]
    exact count
  have enough : metaArrayCap heap.mem (p + 8) = cap := by
    rw [metaArrayCap, if_neg (Nat.succ_ne_zero _), show p + 8 - 4 = p + 4 by omega]
    exact capacity
  have next : (n + 1) % 2 ^ 32 = n + 1 := Nat.mod_eq_of_lt (by omega)
  unfold intrusiveArrayAdd
  simp only [pointer, length, enough, next, Nat.succ_ne_zero, false_or, if_neg (show ¬ cap < n + 1 by omega),
    Option.map_some, Nat.add_sub_cancel, count]

end Procedure

/-- **What a moved array is like.** -/
structure MovedArray (base granted heap' : BlockHeap) (a q n cap size : Nat) (front : List UInt8) : Prop where
  live : heap'.live = granted.live
  pointer : heap'.mem.readNat a 8 = q + 8
  count : heap'.mem.readNat q 4 = n + 1
  capacity : heap'.mem.readNat (q + 4) 4 = cap
  elements : ∀ i, 8 ≤ i → (inside : i < front.length) → heap'.mem (q + i) = front[i]
  slack : ∀ i, 8 ≤ i → front.length ≤ i → i < size * cap + 8 → heap'.mem (q + i) = granted.mem (q + i)
  keeps : base.Keeps Nowhere (Within a 8) heap'

theorem movedArray_spec {A : BlockAlloc} {base granted : BlockHeap} {q a size n cap : Nat} {front : List UInt8}
    (alloc : A.alloc base (size * cap + 8) = some (granted, q)) (owned : base.OwnsRange a 8)
    (count : leValue (front.take 4) = n) (long : 4 ≤ front.length) (fits : front.length ≤ size * cap + 8)
    (few : n + 1 < 2 ^ 32) (small : cap < 2 ^ 32) :
    MovedArray base granted (movedArray (granted, q) a cap front) a q n cap size front := by
  have bounded := A.bounded alloc
  have apart : a + 8 ≤ q ∨ q + (size * cap + 8) ≤ a := by
    by_contra meet
    by_cases below : q ≤ a
    · exact A.apart alloc a below (by omega) (owned a le_rfl (by omega))
    · exact A.apart alloc q le_rfl (by omega) (owned q (by omega) (by omega))
  obtain ⟨first, copied⟩ : ∃ m, granted.mem.store q front = m := ⟨_, rfl⟩
  obtain ⟨second, sized⟩ : ∃ m, first.writeNat (q + 4) 4 cap = m := ⟨_, rfl⟩
  obtain ⟨third, pointed⟩ : ∃ m, second.writeNat a 8 (q + 8) = m := ⟨_, rfl⟩
  have change : ChangedWithin granted.mem first q front.length := copied ▸ store_changedWithin _ _ _
  have change' : ChangedWithin first second (q + 4) 4 := sized ▸ writeNat_changedWithin _ _ _ _
  have change'' : ChangedWithin second third a 8 := pointed ▸ writeNat_changedWithin _ _ _ _
  have leads : third.readNat a 8 = q + 8 := by
    rw [← pointed]
    exact readNat_writeNat_lt (by omega)
  have length : third.readNat q 4 = n := by
    rw [readNat_congr (change''.same (by omega)), readNat_congr (change'.same (by omega)), ← count]
    unfold Mem.readNat
    refine congrArg leValue (List.ext_getElem (by simp; omega) fun i low high => ?_)
    rw [load_getElem, List.getElem_take, ← copied]
    exact store_inside _
  have result : movedArray (granted, q) a cap front =
      { granted with mem := third.writeNat q 4 (n + 1) } := by
    unfold movedArray
    simp only [copied, sized, pointed, leads, Nat.add_sub_cancel, length, Nat.mod_eq_of_lt few]
  have change₄ := writeNat_changedWithin third q 4 (n + 1)
  rw [result]
  refine ⟨rfl, ?_, readNat_writeNat_lt few, ?_, fun i low inside => ?_, fun i low behind inside => ?_, ?_⟩
  · rw [readNat_congr (change₄.same (by omega))]
    exact leads
  · rw [readNat_congr (change₄.same (by omega)), readNat_congr (change''.same (by omega)), ← sized]
    exact readNat_writeNat_lt small
  · rw [show ({ granted with mem := third.writeNat q 4 (n + 1) } : BlockHeap).mem (q + i) =
      third.writeNat q 4 (n + 1) (q + i) from rfl, change₄ _ (by omega), change'' _ (by omega),
      change' _ (by omega), ← copied]
    exact store_inside inside
  · rw [show ({ granted with mem := third.writeNat q 4 (n + 1) } : BlockHeap).mem (q + i) =
      third.writeNat q 4 (n + 1) (q + i) from rfl, change₄ _ (by omega), change'' _ (by omega),
      change' _ (by omega)]
    exact change _ (by omega)
  · intro block member kept
    have grant : base.Keeps Nowhere (Within a 8) granted := .alloc alloc
    obtain ⟨member', same⟩ := grant block member kept
    refine ⟨member', fun x inside outside => ?_⟩
    have new : x < q ∨ q + (size * cap + 8) ≤ x := by
      by_contra within
      exact A.apart alloc x (by omega) (by omega) ⟨block, member, inside⟩
    show third.writeNat q 4 (n + 1) x = base.mem x
    rw [change₄ x (by omega), change'' x (by unfold Within at outside; omega), change' x (by omega),
      change x (by omega)]
    exact same x inside outside

/-! ### Two runs -/

/-- The blocks that may be written, where the array has moved from one to another. -/
def Rewritten (written : Nat → Prop) (ptr q : Nat) : Nat → Prop := fun x => x = q ∨ (written x ∧ x ≠ ptr)

/-- **An element was added in two heaps** to the array whose pointer is at `a`: it has moved from `ptr` to `q`,
behind its `n` elements is a new one, and all else is as it was. -/
structure TwinAdded (reg : MetaRegistry) (R : UInt8 → UInt8 → Prop) (region : Nat × Nat)
    (cells : LeafKind → Nat → Prop) (σ : TwinState) (type a ptr q n cap : Nat) (heap' twin' : BlockHeap) :
    Prop where
  step : TwinStep σ.written (Rewritten σ.written ptr q) (fun x => x = ptr) (Within a 8) σ.heap σ.twin heap' twin'
  live : twin'.live = heap'.live
  separate : heap'.Separate
  home : region.1 ≠ ptr
  positive : 0 < q
  held : HeldArray reg R (Rewritten σ.written ptr q) region.1 heap' twin' type a q (n + 1) cap
  pointers : Same heap'.mem twin'.mem a 8
  slot : ∀ x, Within (q + 8 + n * reg.typeSize type) (reg.typeSize type) x → R (heap'.mem x) (twin'.mem x)
  sound : σ.sound a → SoundElements reg (Rewritten σ.written ptr q) heap' twin' type q n
  spoiled : ¬ σ.sound a → SpoiledElement reg R heap' twin' type q n
  others : ∀ {type' a' p}, cells (.array type') a' → a' ≠ a → σ.heap.mem.readNat a' 8 = p + 8 → p ≠ ptr ∧ p ≠ q

section Adding

variable {reg : MetaRegistry} {R : UInt8 → UInt8 → Prop} {region : Nat × Nat}
  {cells : LeafKind → Nat → Prop} {σ : TwinState} {A B : BlockAlloc} {type a a' type' p ptr q n cap : Nat}
  {heap' twin' granted granted' : BlockHeap} {front front' : List UInt8}

/-- The header of an array is the same where its length and its capacity are. -/
theorem same_header {mem mem' : Mem} (count : mem'.readNat q 4 = mem.readNat q 4)
    (capacity : mem'.readNat (q + 4) 4 = mem.readNat (q + 4) 4) : Same mem mem' q 8 := by
  intro x low high
  by_cases front : x < q + 4
  · exact same_of_readNat count x low front
  · exact same_of_readNat capacity x (by omega) (by omega)

/-- The length of the array in the other heap. -/
theorem HeldArray.twin_count {written : Nat → Prop} {home : Nat} {heap twin : BlockHeap}
    (held : HeldArray reg R written home heap twin type a p n cap) : twin.mem.readNat p 4 = n :=
  (readNat_congr (held.header.part le_rfl (by omega))).trans held.count

/-- The capacity of the array in the other heap. -/
theorem HeldArray.twin_capacity {written : Nat → Prop} {home : Nat} {heap twin : BlockHeap}
    (held : HeldArray reg R written home heap twin type a p n cap) : twin.mem.readNat (p + 4) 4 = cap :=
  (readNat_congr (held.header.part (by omega) (by omega))).trans held.capacity

/-- The block that has a byte of the array is the array's. -/
theorem HeldArray.block_start {written : Nat → Prop} {home x : Nat} {heap twin : BlockHeap} {block : Nat × Nat}
    (held : HeldArray reg R written home heap twin type a p n cap) (separate : heap.Separate)
    (member : block ∈ heap.live) (inside : Within block.1 block.2 x) (low : p ≤ x)
    (high : x < p + (reg.typeSize type * cap + 8)) : block.1 = p :=
  congrArg Prod.fst (separate block member _ held.block x inside ⟨low, high⟩)

/-- Where there is room, the block has the new element, too. -/
theorem next_element_fits {size : Nat} (fits : n < cap) : n * size + size ≤ size * cap := by
  rw [← Nat.succ_mul, Nat.mul_comm]
  exact Nat.mul_le_mul_left _ fits

/-- The block that a pointer leads to. -/
theorem Twins.pointer_block (twins : Twins reg R region cells σ) (cell : cells (.array type) a)
    (pointer : σ.heap.mem.readNat a 8 = p + 8) :
    ∃ n cap, HeldArray reg R σ.written region.1 σ.heap σ.twin type a p n cap := by
  obtain ⟨-, ⟨null, -⟩ | ⟨p', n, cap, held, -⟩⟩ := twins.arrays cell
  · rw [null] at pointer
    exact absurd pointer.symm (Nat.succ_ne_zero _)
  · obtain rfl : p' = p := Nat.add_right_cancel (held.pointer.symm.trans pointer)
    exact ⟨n, cap, held⟩

/-- Other arrays are not in the block of this one. -/
theorem Twins.other_block (twins : Twins reg R region cells σ) (cell : cells (.array type) a)
    (cell' : cells (.array type') a') (other : a' ≠ a)
    (old : ptr = 0 ∨ σ.heap.mem.readNat a 8 = ptr + 8) (pointer : σ.heap.mem.readNat a' 8 = p + 8) : p ≠ ptr := by
  rintro rfl
  rcases old with null | old
  · obtain ⟨n, cap, held⟩ := twins.pointer_block cell' pointer
    exact absurd null (Nat.ne_of_gt (twins.blocks p held.written).1)
  · rcases twins.distinct cell' cell (pointer.trans old.symm) with null | same
    · rw [null] at pointer
      exact absurd pointer.symm (Nat.succ_ne_zero _)
    · exact other same

/-- The pointer of an array is in the block of the leaves. -/
theorem Twins.owns_pointer (twins : Twins reg R region cells σ) (cell : cells (.array type) a)
    (home : region.1 ≠ ptr) : (σ.heap.release ptr).OwnsRange a 8 := fun x low high =>
  ⟨region, mem_release twins.home.2 home, twins.inside cell x ⟨low, high⟩⟩

/-- **The array has moved.** -/
theorem TwinAdded.moved (described : reg.Described) (twins : Twins reg R region cells σ)
    (cell : cells (.array type) a) (old : ptr = 0 ∨ σ.heap.mem.readNat a 8 = ptr + 8)
    (writable : ptr = 0 ∨ σ.written ptr) (home : region.1 ≠ ptr) (related : A.Related R B)
    (alloc : A.alloc (σ.heap.release ptr) (reg.typeSize type * cap + 8) = some (granted, q))
    (alloc' : B.alloc (σ.twin.release ptr) (reg.typeSize type * cap + 8) = some (granted', q))
    (live : granted'.live = granted.live)
    (moved : MovedArray (σ.heap.release ptr) granted heap' a q n cap (reg.typeSize type) front)
    (moved' : MovedArray (σ.twin.release ptr) granted' twin' a q n cap (reg.typeSize type) front')
    (short : front.length ≤ 8 + n * reg.typeSize type) (short' : front'.length ≤ 8 + n * reg.typeSize type)
    (copied : Moved σ.heap σ.twin heap' twin' (ptr + 8) (q + 8) (n * reg.typeSize type))
    (fits : n < cap) (least : 4 ≤ cap) (small : reg.typeSize type * cap + 8 < 2 ^ 32 ∧ cap < 2 ^ 31)
    (sound : σ.sound a → SoundElements reg σ.written σ.heap σ.twin type ptr n)
    (spoiled : ¬ σ.sound a → SpoiledElement reg R σ.heap σ.twin type ptr n) :
    TwinAdded reg R region cells σ type a ptr q n cap heap' twin' := by
  have new : ∀ block ∈ σ.heap.live, 0 < block.2 → block.1 ≠ ptr → block.1 ≠ q := by
    intro block member some_ other
    exact (A.new_start alloc (mem_release member other) some_).resolve_left (Nat.succ_ne_zero _)
  have granted_live := A.live alloc
  have step : TwinStep σ.written (Rewritten σ.written ptr q) (fun x => x = ptr) (Within a 8) σ.heap σ.twin
      heap' twin' := by
    refine ⟨(BlockHeap.Keeps.release _ _).trans moved.keeps.drop,
      (BlockHeap.Keeps.release _ _).trans moved'.keeps.drop, twins.live, twins.separate, ?_, ?_, ?_⟩
    · rintro p rfl
      exact writable.symm
    · exact fun x inside => ⟨region, twins.home.2, twins.home.1, twins.inside cell x inside⟩
    · rintro block member some_ text (same | ⟨written, -⟩)
      · by_cases old : block.1 = ptr
        · rcases writable with null | written
          · have positive := A.nonnull alloc
            omega
          · exact text (old ▸ written)
        · exact new block member some_ old same
      · exact text written
  have unset : ∀ x, q + 8 + n * reg.typeSize type ≤ x → x < q + (reg.typeSize type * cap + 8) →
      R (heap'.mem x) (twin'.mem x) := by
    intro x low high
    obtain ⟨i, rfl⟩ : ∃ i, x = q + i := ⟨x - q, by omega⟩
    rw [moved.slack i (by omega) (by omega) (by omega), moved'.slack i (by omega) (by omega) (by omega)]
    exact related alloc alloc' (q + i) ⟨by omega, by omega⟩
  have whole : n * reg.typeSize type + reg.typeSize type ≤ reg.typeSize type * cap := next_element_fits fits
  have header : Same heap'.mem twin'.mem q 8 :=
    same_header (moved'.count.trans moved.count.symm) (moved'.capacity.trans moved.capacity.symm)
  refine ⟨step, by rw [moved.live, moved'.live, live], ?_, home, A.nonnull alloc, ⟨Or.inl rfl, ?_, ?_,
    moved.pointer, moved.count, moved.capacity, header, fits, least, small, fun x low high => ?_⟩,
    same_of_readNat (moved'.pointer.trans moved.pointer.symm), fun x inside => ?_,
    fun known => (sound known).move described step copied,
    fun unknown => (spoiled unknown).move described copied, fun cell' other pointer => ?_⟩
  · have separate : granted.Separate := (twins.separate.release ptr).alloc alloc
    unfold BlockHeap.Separate
    rw [moved.live]
    exact separate
  · obtain ⟨low, high⟩ := twins.inside cell a ⟨le_rfl, Nat.lt_add_of_pos_right (Nat.succ_pos 7)⟩
    exact (new region twins.home.2 (by omega) home).symm
  · rw [moved.live, granted_live]
    exact List.mem_cons_self
  · rw [Nat.succ_mul] at low
    exact unset x (by omega) high
  · obtain ⟨low, high⟩ := inside
    exact unset x low (by omega)
  · obtain ⟨m, cap', held⟩ := twins.pointer_block cell' pointer
    have apart := twins.other_block cell cell' other old pointer
    exact ⟨apart, new _ held.block (Nat.succ_pos _) apart⟩

/-- **There is room** for an element more. -/
theorem TwinAdded.room (described : reg.Described) (twins : Twins reg R region cells σ)
    (cell : cells (.array type) a) (pointers : Same σ.heap.mem σ.twin.mem a 8)
    (held : HeldArray reg R σ.written region.1 σ.heap σ.twin type a p n cap) (fits : n < cap)
    (sound : σ.sound a → SoundElements reg σ.written σ.heap σ.twin type p n)
    (spoiled : ¬ σ.sound a → SpoiledElement reg R σ.heap σ.twin type p n) :
    TwinAdded reg R region cells σ type a p p n cap
      { σ.heap with mem := σ.heap.mem.writeNat p 4 (n + 1) }
      { σ.twin with mem := σ.twin.mem.writeNat p 4 (n + 1) } := by
  have small := held.small
  have whole : n * reg.typeSize type + reg.typeSize type ≤ reg.typeSize type * cap := next_element_fits fits
  have change := writeNat_changedWithin σ.heap.mem p 4 (n + 1)
  have change' := writeNat_changedWithin σ.twin.mem p 4 (n + 1)
  have keeps : ∀ heap : BlockHeap, heap.live = σ.heap.live → heap.Keeps (fun x => x = p) (Within a 8)
      { heap with mem := heap.mem.writeNat p 4 (n + 1) } := by
    intro heap live block member other
    refine ⟨member, fun x inside _ => writeNat_changedWithin heap.mem p 4 (n + 1) x ?_⟩
    by_contra within
    rw [live] at member
    exact other (held.block_start twins.separate member inside (by omega) (by omega))
  have step : TwinStep σ.written (Rewritten σ.written p p) (fun x => x = p) (Within a 8) σ.heap σ.twin
      { σ.heap with mem := σ.heap.mem.writeNat p 4 (n + 1) }
      { σ.twin with mem := σ.twin.mem.writeNat p 4 (n + 1) } := by
    refine ⟨keeps _ rfl, keeps _ twins.live, twins.live, twins.separate, ?_, ?_, ?_⟩
    · rintro x rfl
      exact Or.inl held.written
    · exact fun x inside => ⟨region, twins.home.2, twins.home.1, twins.inside cell x inside⟩
    · rintro block member some_ text (same | ⟨written, -⟩)
      · exact text (same ▸ held.written)
      · exact text written
  have apart : ∀ x, Within a 8 x → x < p ∨ p + 4 ≤ x := by
    intro x inside
    by_contra within
    exact held.other (held.block_start twins.separate twins.home.2 (twins.inside cell x inside) (by omega)
      (by omega)).symm
  have elements : Moved σ.heap σ.twin { σ.heap with mem := σ.heap.mem.writeNat p 4 (n + 1) }
      { σ.twin with mem := σ.twin.mem.writeNat p 4 (n + 1) } (p + 8) (p + 8) (n * reg.typeSize type) :=
    fun i _ => ⟨change _ (by omega), change' _ (by omega)⟩
  have leads : (σ.heap.mem.writeNat p 4 (n + 1)).readNat a 8 = p + 8 :=
    (readNat_congr fun x low high => change x (apart x ⟨low, high⟩)).trans held.pointer
  have counted : ∀ m : Mem, (m.writeNat p 4 (n + 1)).readNat p 4 = n + 1 :=
    fun m => readNat_writeNat_lt (by omega)
  have capacity : (σ.heap.mem.writeNat p 4 (n + 1)).readNat (p + 4) 4 = cap :=
    (readNat_congr (change.same (by omega))).trans held.capacity
  have capacity' : (σ.twin.mem.writeNat p 4 (n + 1)).readNat (p + 4) 4 = cap :=
    (readNat_congr (change'.same (by omega))).trans held.twin_capacity
  have header : Same (σ.heap.mem.writeNat p 4 (n + 1)) (σ.twin.mem.writeNat p 4 (n + 1)) p 8 :=
    same_header ((counted σ.twin.mem).trans (counted σ.heap.mem).symm) (capacity'.trans capacity.symm)
  refine ⟨step, twins.live, twins.separate, held.other.symm, (twins.blocks p held.written).1, ⟨Or.inl rfl,
    held.other, held.block, leads, counted _, capacity, header, fits, held.least, small, fun x low high => ?_⟩,
    fun x low high => ?_, fun x inside => ?_, fun known => (sound known).move described step elements,
    fun unknown => (spoiled unknown).move described elements, fun cell' other pointer => ?_⟩
  · show R (σ.heap.mem.writeNat p 4 (n + 1) x) (σ.twin.mem.writeNat p 4 (n + 1) x)
    rw [Nat.succ_mul] at low
    rw [change x (by omega), change' x (by omega)]
    exact held.slack x (by omega) high
  · show σ.twin.mem.writeNat p 4 (n + 1) x = σ.heap.mem.writeNat p 4 (n + 1) x
    rw [change x (apart x ⟨low, high⟩), change' x (apart x ⟨low, high⟩)]
    exact pointers x low high
  · obtain ⟨low, high⟩ := inside
    show R (σ.heap.mem.writeNat p 4 (n + 1) x) (σ.twin.mem.writeNat p 4 (n + 1) x)
    rw [change x (by omega), change' x (by omega)]
    exact held.slack x low (by omega)
  · have apart := twins.other_block cell cell' other (Or.inr held.pointer) pointer
    exact ⟨apart, apart⟩

/-- **The first element**: both arrays start in a new block for four. -/
theorem Twins.add_first (described : reg.Described) (twins : Twins reg R region cells σ)
    (cell : cells (.array type) a) (same : A.SameGrants B) (related : A.Related R B)
    (pointers : Same σ.heap.mem σ.twin.mem a 8) (null : σ.heap.mem.readNat a 8 = 0) (known : σ.sound a)
    (room : DefaultRoom (reg.typeSize type) 0)
    (added : intrusiveArrayAdd A σ.heap a (reg.typeSize type) = some heap') :
    ∃ twin' q, intrusiveArrayAdd B σ.twin a (reg.typeSize type) = some twin' ∧
      TwinAdded reg R region cells σ type a 0 q 0 4 heap' twin' := by
  have positive : 0 < region.1 := (twins.blocks _ twins.home.1).1
  have small : reg.typeSize type * 4 + 8 < 2 ^ 32 := room.1
  have null' : σ.twin.mem.readNat a 8 = 0 := (readNat_congr pointers).trans null
  rw [intrusiveArrayAdd_first null small] at added
  rw [intrusiveArrayAdd_first null' small]
  obtain ⟨⟨granted, q⟩, alloc, rfl⟩ := Option.map_eq_some_iff.mp added
  obtain ⟨granted', alloc', live⟩ := same.granted twins.live alloc
  have owned : (σ.heap.release 0).OwnsRange a 8 := twins.owns_pointer cell (Nat.ne_of_gt positive)
  have header : (leBytes 4 0).length ≤ reg.typeSize type * 4 + 8 := by
    rw [leBytes_length]
    omega
  have moved : MovedArray σ.heap granted _ a q 0 4 (reg.typeSize type) (leBytes 4 0) :=
    movedArray_spec alloc owned rfl le_rfl header (by norm_num) (by norm_num)
  have moved' : MovedArray σ.twin granted' _ a q 0 4 (reg.typeSize type) (leBytes 4 0) :=
    movedArray_spec alloc' (owned.same_live twins.live) rfl le_rfl header (by norm_num) (by norm_num)
  refine ⟨_, q, by rw [alloc']; rfl, TwinAdded.moved described twins cell (Or.inl rfl) (Or.inl rfl)
    (Nat.ne_of_gt positive) related alloc alloc' live moved moved' (by simp) (by simp)
    (fun i inside => ?_) (by norm_num) le_rfl ⟨small, by norm_num⟩ (fun _ i inside => ?_)
    fun unknown => absurd known unknown⟩
  · rw [Nat.zero_mul] at inside
    exact absurd inside (Nat.not_lt_zero i)
  · exact absurd inside (Nat.not_lt_zero i)

/-- **No room is left**: both arrays move to a block of twice the capacity. -/
theorem Twins.add_full (described : reg.Described) (twins : Twins reg R region cells σ)
    (cell : cells (.array type) a) (same : A.SameGrants B) (related : A.Related R B)
    (pointers : Same σ.heap.mem σ.twin.mem a 8)
    (held : HeldArray reg R σ.written region.1 σ.heap σ.twin type a p n n)
    (sound : σ.sound a → SoundElements reg σ.written σ.heap σ.twin type p n)
    (spoiled : ¬ σ.sound a → SpoiledElement reg R σ.heap σ.twin type p n)
    (room : DefaultRoom (reg.typeSize type) n)
    (added : intrusiveArrayAdd A σ.heap a (reg.typeSize type) = some heap') :
    ∃ twin' q, intrusiveArrayAdd B σ.twin a (reg.typeSize type) = some twin' ∧
      TwinAdded reg R region cells σ type a p q n (2 * n) heap' twin' := by
  have least := held.least
  have twice : max 4 (2 * n) = 2 * n := max_eq_right (by omega)
  obtain ⟨sizes, counts⟩ := room
  rw [twice] at sizes counts
  have pointer' : σ.twin.mem.readNat a 8 = p + 8 := (readNat_congr pointers).trans held.pointer
  rw [intrusiveArrayAdd_full held.pointer held.count held.capacity least (by omega) sizes] at added
  rw [intrusiveArrayAdd_full pointer' held.twin_count held.twin_capacity least (by omega) sizes]
  obtain ⟨⟨granted, q⟩, alloc, rfl⟩ := Option.map_eq_some_iff.mp added
  have released : (σ.twin.release p).live = (σ.heap.release p).live := release_live_eq twins.live p
  obtain ⟨granted', alloc', live⟩ := same.granted released alloc
  have owned := twins.owns_pointer cell held.other.symm
  have half : reg.typeSize type * n ≤ reg.typeSize type * (2 * n) := Nat.mul_le_mul_left _ (by omega)
  have front : ∀ m : Mem, m.readNat p 4 = n →
      leValue ((m.load p (reg.typeSize type * n + 8)).take 4) = n := fun m count => by
    rw [show reg.typeSize type * n + 8 = 4 + (reg.typeSize type * n + 4) by omega, load_append,
      List.take_left' load_length]
    exact count
  have moved := movedArray_spec alloc owned (front σ.heap.mem held.count) (by rw [load_length]; omega)
    (by rw [load_length]; omega) (by omega) (by omega)
  have moved' := movedArray_spec alloc' (owned.same_live released) (front σ.twin.mem held.twin_count)
    (by rw [load_length]; omega) (by rw [load_length]; omega) (by omega) (by omega)
  have short : ∀ m : Mem, (m.load p (reg.typeSize type * n + 8)).length ≤ 8 + n * reg.typeSize type :=
    fun m => by rw [load_length, Nat.mul_comm n, Nat.add_comm]
  refine ⟨_, q, by rw [alloc']; rfl, TwinAdded.moved described twins cell (Or.inr held.pointer)
    (Or.inr held.written) held.other.symm related alloc alloc' live moved moved' (short _) (short _)
    (fun i inside => ?_) (by omega) (by omega) ⟨sizes, counts⟩ sound spoiled⟩
  rw [Nat.mul_comm] at inside
  constructor
  · rw [Nat.add_assoc, moved.elements (8 + i) (by omega) (by rw [load_length]; omega), load_getElem,
      Nat.add_assoc]
  · rw [Nat.add_assoc, moved'.elements (8 + i) (by omega) (by rw [load_length]; omega), load_getElem,
      Nat.add_assoc]

/-- **Two runs add an element** to the same array. -/
theorem Twins.add (described : reg.Described) (twins : Twins reg R region cells σ)
    (cell : cells (.array type) a) (same : A.SameGrants B) (related : A.Related R B)
    (room : DefaultRoom (reg.typeSize type) (metaArrayLen σ.heap.mem (σ.heap.mem.readNat a 8)))
    (added : intrusiveArrayAdd A σ.heap a (reg.typeSize type) = some heap') :
    ∃ twin' ptr q cap, intrusiveArrayAdd B σ.twin a (reg.typeSize type) = some twin' ∧
      TwinAdded reg R region cells σ type a ptr q
        (metaArrayLen σ.heap.mem (σ.heap.mem.readNat a 8)) cap heap' twin' := by
  obtain ⟨pointers, ⟨null, known⟩ | ⟨p, n, cap, held, sound, spoiled⟩⟩ := twins.arrays cell
  · have length : metaArrayLen σ.heap.mem (σ.heap.mem.readNat a 8) = 0 := by
      rw [null]
      rfl
    rw [length] at room ⊢
    obtain ⟨twin', q, added', both⟩ := twins.add_first described cell same related pointers null known room added
    exact ⟨twin', 0, q, 4, added', both⟩
  · rw [held.length] at room ⊢
    by_cases fits : n < cap
    · have pointer' : σ.twin.mem.readNat a 8 = p + 8 := (readNat_congr pointers).trans held.pointer
      rw [intrusiveArrayAdd_room held.pointer held.count held.capacity fits held.small.2] at added
      cases added
      exact ⟨_, p, p, cap, intrusiveArrayAdd_room pointer' held.twin_count held.twin_capacity fits held.small.2,
        TwinAdded.room described twins cell pointers held fits sound spoiled⟩
    · obtain rfl : n = cap := Nat.le_antisymm held.fits (Nat.le_of_not_lt fits)
      obtain ⟨twin', q, added', both⟩ :=
        twins.add_full described cell same related pointers held sound spoiled room added
      exact ⟨twin', p, q, 2 * n, added', both⟩

/-- The new element. -/
def newElement (reg : MetaRegistry) (type q n : Nat) : Nat := q + 8 + n * reg.typeSize type

/-- **The new element is unset** in both heaps. -/
theorem TwinAdded.element (described : reg.Described) (twins : Twins reg R region cells σ)
    (added : TwinAdded reg R region cells σ type a ptr q n cap heap' twin')
    (flat : ∀ element offset, ¬ reg.Leaf type (.array element) offset) :
    Twins reg R (q, reg.typeSize type * cap + 8) (reg.CellsAt type (newElement reg type q n))
      ⟨Rewritten σ.written ptr q, fun _ _ => False, fun _ => True, heap', twin'⟩ := by
  have whole : (n + 1) * reg.typeSize type ≤ reg.typeSize type * cap := added.held.elements_fit
  rw [Nat.succ_mul] at whole
  refine ⟨added.live, added.separate, ?_, ⟨Or.inl rfl, added.held.block⟩, ?_, ?_, fun _ _ known => known.elim,
    ?_, ?_, ?_, ?_⟩
  · rintro p (rfl | ⟨written, other⟩)
    · exact ⟨added.positive, _, Nat.succ_pos _, added.held.block⟩
    · obtain ⟨positive, m, some_, member⟩ := twins.blocks p written
      exact ⟨positive, m, some_, (added.step.keeps _ member other).1⟩
  · rintro kind x ⟨offset, leaf, rfl⟩ y ⟨low, high⟩
    have inside := (leaf.inside described).1
    unfold newElement at low high
    exact ⟨by show q ≤ y; omega, by show y < q + (reg.typeSize type * cap + 8); omega⟩
  · rintro kind kind' x x' ⟨offset, leaf, rfl⟩ ⟨offset', leaf', rfl⟩
    rcases leaf.apart described leaf' with ⟨rfl, rfl⟩ | apart
    · exact Or.inl ⟨rfl, rfl⟩
    · exact Or.inr (by omega)
  · rintro kind x ⟨offset, leaf, rfl⟩ - - y ⟨low, high⟩
    have inside := (leaf.inside described).1
    unfold newElement at low high
    exact added.slot y ⟨by omega, by omega⟩
  · rintro element x ⟨offset, leaf, -⟩
    exact absurd leaf (flat element offset)
  · rintro element element' x x' ⟨offset, leaf, -⟩
    exact absurd leaf (flat element offset)
  · rintro element x ⟨offset, leaf, -⟩
    exact absurd leaf (flat element offset)

/-- Other leaves are left alone as an element is added. -/
theorem TwinAdded.spares {kind : LeafKind} (twins : Twins reg R region cells σ) (cell : cells (.array type) a)
    (added : TwinAdded reg R region cells σ type a ptr q n cap heap' twin') (cell' : cells kind a')
    (other : ¬ (kind = .array type ∧ a' = a)) : added.step.Spares a' kind.width := by
  refine ⟨region, twins.home.2, added.home, fun x inside => ⟨twins.inside cell' x inside, fun changed => ?_⟩⟩
  have apart := (twins.apart cell cell').resolve_left fun same => other ⟨same.1.symm, same.2.symm⟩
  obtain ⟨low, high⟩ := inside
  obtain ⟨low', high'⟩ := changed
  have width : (LeafKind.array type).width = 8 := rfl
  omega

/-- **The new element is parsed**: only its leaves are written. -/
structure TwinAdded.Parsed (_ : TwinAdded reg R region cells σ type a ptr q n cap heap' twin')
    (heap'' twin'' : BlockHeap) : Prop where
  step : TwinStep (Rewritten σ.written ptr q) (Rewritten σ.written ptr q) Nowhere
    (Covered (reg.CellsAt type (newElement reg type q n))) heap' twin' heap'' twin''
  live : twin''.live = heap''.live
  separate : heap''.Separate

variable {heap'' twin'' : BlockHeap} {added : TwinAdded reg R region cells σ type a ptr q n cap heap' twin'}

/-- The bytes of the new element. -/
theorem covered_element (described : reg.Described) {x : Nat}
    (covered : Covered (reg.CellsAt type (newElement reg type q n)) x) :
    q + 8 + n * reg.typeSize type ≤ x ∧ x < q + 8 + (n + 1) * reg.typeSize type := by
  obtain ⟨kind, _, ⟨offset, leaf, rfl⟩, low, high⟩ := covered
  have inside := (leaf.inside described).1
  unfold newElement at low high
  rw [Nat.succ_mul]
  omega

/-- The leaves of the object are not in the block of the array. -/
theorem TwinAdded.Parsed.spares {kind : LeafKind} (described : reg.Described)
    (twins : Twins reg R region cells σ) (parsed : added.Parsed heap'' twin'') (cell' : cells kind a') :
    parsed.step.Spares a' kind.width := by
  have whole := added.held.elements_fit
  refine ⟨region, (added.step.keeps _ twins.home.2 added.home).1, id,
    fun x inside => ⟨twins.inside cell' x inside, fun covered => added.held.other ?_⟩⟩
  obtain ⟨low, high⟩ := covered_element described covered
  exact (added.held.block_start added.separate (added.step.keeps _ twins.home.2 added.home).1
    (twins.inside cell' x inside) (by omega) (by omega)).symm

/-- A part of the array's block that is in front of the new element. -/
theorem TwinAdded.Parsed.ahead (described : reg.Described) (parsed : added.Parsed heap'' twin'') {b k : Nat}
    (low : q ≤ b) (high : b + k ≤ q + 8 + n * reg.typeSize type) : parsed.step.Spares b k := by
  have whole := added.held.elements_fit
  rw [Nat.succ_mul] at whole
  refine ⟨_, added.held.block, id, fun x inside => ⟨⟨low.trans inside.1, ?_⟩, fun covered => ?_⟩⟩
  · have := inside.2
    show x < q + (_ + 8)
    omega
  · have := (covered_element described covered).1
    have := inside.2
    omega

/-- **The array with the new element.** -/
theorem TwinAdded.Parsed.array {filled : Prop} (described : reg.Described) (twins : Twins reg R region cells σ)
    (cell : cells (.array type) a) (parsed : added.Parsed heap'' twin'')
    (same : filled → ∀ kind offset, reg.Leaf type kind offset →
      SameCell (Rewritten σ.written ptr q) heap'' twin'' kind (newElement reg type q n + offset))
    (unset : ¬ filled → ∃ kind offset, reg.Leaf type kind offset ∧ kind.isArray = false ∧
      Unset R heap'' twin'' kind (newElement reg type q n + offset)) :
    ArrayAt reg R (Rewritten σ.written ptr q) region.1 heap'' twin'' (σ.sound a ∧ filled) type a := by
  have pointer : parsed.step.Spares a 8 := parsed.spares described twins cell
  have elements : parsed.step.Spares (q + 8) (n * reg.typeSize type) :=
    parsed.ahead described (by omega) le_rfl
  refine ⟨pointer.keep added.pointers, Or.inr ⟨q, n + 1, cap, added.held.keep id (Or.inl rfl) pointer
    (parsed.ahead described le_rfl (by omega)) (fun x low _ covered => ?_), fun both i inside => ?_,
    fun spoiled => ?_⟩⟩
  · have := (covered_element described covered).2
    omega
  · rcases Nat.lt_succ_iff_lt_or_eq.mp inside with before | rfl
    · exact (added.sound both.1).move described parsed.step elements.moved i before
    · exact same both.2
  · by_cases sound : σ.sound a
    · obtain ⟨kind, offset, leaf, value, unset⟩ := unset fun filled => spoiled ⟨sound, filled⟩
      exact ⟨n, Nat.lt_succ_self n, kind, offset, leaf, value, unset⟩
    · obtain ⟨i, inside, rest⟩ := (added.spoiled sound).move described elements.moved
      exact ⟨i, Nat.lt_succ_of_lt inside, rest⟩

/-- **Another array** stays as it is. -/
theorem TwinAdded.Parsed.other (described : reg.Described) (twins : Twins reg R region cells σ)
    (cell : cells (.array type) a) (parsed : added.Parsed heap'' twin'') (cell' : cells (.array type') a')
    (other : a' ≠ a) :
    ArrayAt reg R (Rewritten σ.written ptr q) region.1 heap'' twin'' (σ.sound a') type' a' := by
  have pointer : added.step.Spares a' 8 := added.spares twins cell cell' fun same => other same.2
  have pointer' : parsed.step.Spares a' 8 := parsed.spares described twins cell'
  refine ((twins.arrays cell').keep described pointer (fun p written kept => Or.inr ⟨written, kept⟩)
    fun p m cap' held => ⟨(added.others cell' other held.pointer).1, fun x inside changed => ?_⟩).keep described
    pointer' (fun p written _ => written) fun p m cap' held => ⟨id, fun x inside covered => ?_⟩
  · exact held.other (congrArg Prod.fst
      (twins.separate _ held.block _ twins.home.2 x inside (twins.inside cell x changed)))
  · have leads : σ.heap.mem.readNat a' 8 = p + 8 := pointer.readNat.symm.trans held.pointer
    have whole := added.held.elements_fit
    obtain ⟨low, high⟩ := covered_element described covered
    exact (added.others cell' other leads).2
      (added.held.block_start added.separate held.block inside (by omega) (by omega))

/-- Different arrays are in different blocks. -/
theorem TwinAdded.Parsed.distinct {a₁ a₂ type₁ type₂ : Nat} (described : reg.Described)
    (twins : Twins reg R region cells σ) (cell : cells (.array type) a) (parsed : added.Parsed heap'' twin'')
    (cell₁ : cells (.array type₁) a₁) (cell₂ : cells (.array type₂) a₂)
    (equal : heap''.mem.readNat a₁ 8 = heap''.mem.readNat a₂ 8) :
    heap''.mem.readNat a₁ 8 = 0 ∨ a₁ = a₂ := by
  have later : ∀ {type' a'}, cells (.array type') a' → heap''.mem.readNat a' 8 = heap'.mem.readNat a' 8 :=
    fun cell' => (show parsed.step.Spares _ 8 from parsed.spares described twins cell').readNat
  have before : ∀ {type' a'}, cells (.array type') a' → a' ≠ a →
      heap'.mem.readNat a' 8 = σ.heap.mem.readNat a' 8 := fun cell' other =>
    (show added.step.Spares _ 8 from added.spares twins cell cell' fun same => other same.2).readNat
  rw [later cell₁, later cell₂] at equal
  rw [later cell₁]
  by_cases first : a₁ = a <;> by_cases second : a₂ = a
  · exact Or.inr (first.trans second.symm)
  · rw [first, added.held.pointer, before cell₂ second] at equal
    exact absurd rfl (added.others cell₂ second equal.symm).2
  · rw [second, added.held.pointer, before cell₁ first] at equal
    exact absurd rfl (added.others cell₁ first equal).2
  · rw [before cell₁ first, before cell₂ second] at equal
    rw [before cell₁ first]
    exact twins.distinct cell₁ cell₂ equal

/-- **The new element was parsed**: the array has an element more, whose leaves are all the same if all were
set. -/
theorem TwinAdded.settle {sets : LeafKind → Nat → Prop} {good : Prop} {σ' : TwinState}
    (described : reg.Described) (twins : Twins reg R region cells σ) (cell : cells (.array type) a)
    (added : TwinAdded reg R region cells σ type a ptr q n cap heap' twin')
    (flat : ∀ element offset, ¬ reg.Leaf type (.array element) offset)
    (run : TwinRun reg R (q, reg.typeSize type * cap + 8) (reg.CellsAt type (newElement reg type q n)) sets good
      ⟨Rewritten σ.written ptr q, fun _ _ => False, fun _ => True, heap', twin'⟩ σ') :
    TwinRun reg R region cells sets
      (good ∧ ∀ kind offset, reg.Leaf type kind offset → sets kind (newElement reg type q n + offset)) σ
      ⟨Rewritten σ.written ptr q, σ.known, fun x => σ.sound x ∧ (x = a → ∀ kind offset,
        reg.Leaf type kind offset → sets kind (newElement reg type q n + offset)), σ'.heap, σ'.twin⟩ := by
  have none_ : ∀ element x, ¬ reg.CellsAt type (newElement reg type q n) (.array element) x :=
    fun element x ⟨offset, leaf, _⟩ => flat element offset leaf
  have value : ∀ {kind offset}, reg.Leaf type kind offset → kind.isArray = false := by
    intro kind offset leaf
    cases kind with
    | array element => exact absurd leaf (flat element offset)
    | bytes | string => rfl
  obtain ⟨rewritten, keeps, keeps'⟩ := run.frame none_
  have written : σ'.written = Rewritten σ.written ptr q := rewritten
  have all_ : good := (run.sound.mp fun element x cell => absurd cell (none_ element x)).2
  have element := added.element described twins flat
  have parsed : added.Parsed σ'.heap σ'.twin :=
    ⟨⟨keeps, keeps', added.live, added.separate, fun _ dropped => dropped.elim,
      fun x ⟨kind, b, cell, inside⟩ => ⟨_, added.held.block, Or.inl rfl, element.inside cell x inside⟩,
      fun _ _ _ text => text⟩, run.twins.live, run.twins.separate⟩
  have known : ∀ {kind offset}, reg.Leaf type kind offset →
      (σ'.known kind (newElement reg type q n + offset) ↔ sets kind (newElement reg type q n + offset)) :=
    fun leaf => (run.known _ _ ⟨_, leaf, rfl⟩).trans (or_iff_right id)
  refine ⟨⟨run.twins.live, run.twins.separate, written ▸ run.twins.blocks, ⟨Or.inr ⟨twins.home.1, added.home⟩,
    (keeps _ (added.step.keeps _ twins.home.2 added.home).1 id).1⟩, twins.inside, twins.apart,
    fun {kind b} cell' value known => ?_, fun cell' _ unknown => absurd (twins.zeroed cell _ _ cell') unknown,
    fun {type' b} cell' => ?_, fun cell₁ cell₂ => parsed.distinct described twins cell cell₁ cell₂, twins.zeroed⟩,
    fun kind b cell' => ⟨Or.inl, fun _ => twins.zeroed cell kind b cell'⟩, ?_,
    fun none_ => absurd cell (none_ type a)⟩
  · have first : added.step.Spares b kind.width := added.spares twins cell cell' fun same => by
      rw [same.1] at value
      cases value
    exact ((twins.same cell' value known).keep first).keep (parsed.spares described twins cell')
  · by_cases same : b = a
    · subst same
      obtain rfl : type = type' := by
        rcases twins.apart cell cell' with ⟨same, -⟩ | apart
        · exact LeafKind.array.inj same
        · simp only [LeafKind.width] at apart
          omega
      refine parsed.array described twins cell (fun filled kind offset leaf => ?_) fun missing => ?_
      · show SameCell (Rewritten σ.written ptr q) σ'.heap σ'.twin kind _
        rw [← written]
        exact run.twins.same ⟨offset, leaf, rfl⟩ (value leaf) ((known leaf).mpr (filled rfl kind offset leaf))
      · obtain ⟨kind, kinds⟩ := not_forall.mp fun all_ => missing fun _ => all_
        obtain ⟨offset, offsets⟩ := not_forall.mp kinds
        obtain ⟨leaf, left⟩ := Classical.not_imp.mp offsets
        exact ⟨kind, offset, leaf, value leaf,
          run.twins.unset ⟨offset, leaf, rfl⟩ (value leaf) (mt (known leaf).mp left)⟩
    · have unchanged : (σ.sound b ∧ (b = a → ∀ kind offset, reg.Leaf type kind offset →
          sets kind (newElement reg type q n + offset))) = σ.sound b :=
        propext (and_iff_left fun equal => absurd equal same)
      show ArrayAt reg R _ _ _ _ (σ.sound b ∧ _) type' b
      rw [unchanged]
      exact parsed.other described twins cell cell' same
  · exact ⟨fun sound => ⟨fun type' b cell' => (sound type' b cell').1, all_, (sound type a cell).2 rfl⟩,
      fun both type' b cell' => ⟨both.1 type' b cell', fun _ => both.2.2⟩⟩

end Adding

end Vaudou
