/-
**A memory with the blocks that were handed out of it.**

`BlockAlloc` is an allocation procedure: a granted block is not null, ends within half of the address
space, is apart from the blocks handed out before and leaves their bytes. `Granted` says which heaps a
program with an allocator comes to, and `Roomy` that the allocator does not refuse requests of altogether
so many bytes.

`BlockHeap.Kept` is the frame of a program part that works on one region: everything else that was handed
out is as before.
-/

import Vaudou.Foundation.Memory

namespace Vaudou.Memory

/-- A memory, and the blocks handed out of it: address and size. -/
structure BlockHeap where
  mem : Mem
  live : List (Nat × Nat)

/-- The address lies in a block that was handed out. -/
def BlockHeap.Owns (heap : BlockHeap) (x : Nat) : Prop :=
  ∃ block ∈ heap.live, block.1 ≤ x ∧ x < block.1 + block.2

/-- The `n` bytes from `a` on belong to the heap. -/
def BlockHeap.OwnsRange (heap : BlockHeap) (a n : Nat) : Prop :=
  ∀ x, a ≤ x → x < a + n → heap.Owns x

/-- **An allocation procedure.** `none` is a request that fails. -/
structure BlockAlloc where
  alloc : BlockHeap → (size : Nat) → Option (BlockHeap × Nat)
  nonnull : ∀ {heap size heap' p}, alloc heap size = some (heap', p) → 0 < p
  bounded : ∀ {heap size heap' p}, alloc heap size = some (heap', p) → p + size ≤ 2 ^ 63
  live : ∀ {heap size heap' p}, alloc heap size = some (heap', p) →
    heap'.live = (p, size) :: heap.live
  apart : ∀ {heap size heap' p}, alloc heap size = some (heap', p) →
    ∀ x, p ≤ x → x < p + size → ¬ heap.Owns x
  keeps : ∀ {heap size heap' p}, alloc heap size = some (heap', p) →
    ∀ x, heap.Owns x → heap'.mem x = heap.mem x

/-- The heaps that grants and writes lead to, with the bytes that were requested. -/
inductive Granted (A : BlockAlloc) (start : BlockHeap) : BlockHeap → Nat → Prop where
  | start : Granted A start start 0
  | alloc {heap used size heap' p} : Granted A start heap used →
      A.alloc heap size = some (heap', p) → Granted A start heap' (used + size)
  | write {heap used} (mem : Mem) : Granted A start heap used →
      Granted A start { heap with mem := mem } used

/-- Requests of altogether `budget` bytes are not refused. -/
def Roomy (A : BlockAlloc) (start : BlockHeap) (budget : Nat) : Prop :=
  ∀ heap used size, Granted A start heap used → used + size ≤ budget →
    (A.alloc heap size).isSome = true

/-- The second heap has the blocks of the first, and outside the `n` bytes from `a` on their bytes. -/
structure BlockHeap.Kept (heap heap' : BlockHeap) (a n : Nat) : Prop where
  live : heap.live ⊆ heap'.live
  same : ∀ x, heap.Owns x → x < a ∨ a + n ≤ x → heap'.mem x = heap.mem x

section Heaps

variable {heap heap' heap'' : BlockHeap} {a b n k : Nat}

theorem BlockHeap.Owns.mono {x : Nat} (owns : heap.Owns x) (live : heap.live ⊆ heap'.live) :
    heap'.Owns x := by
  obtain ⟨block, member, inside⟩ := owns
  exact ⟨block, live member, inside⟩

theorem BlockHeap.OwnsRange.mono (owns : heap.OwnsRange a n) (live : heap.live ⊆ heap'.live) :
    heap'.OwnsRange a n :=
  fun x low high => (owns x low high).mono live

/-- A part of a region. -/
theorem BlockHeap.OwnsRange.part (owns : heap.OwnsRange a n) (low : a ≤ b) (high : b + k ≤ a + n) :
    heap.OwnsRange b k :=
  fun x lowX highX => owns x (by omega) (by omega)

theorem BlockHeap.Kept.refl (heap : BlockHeap) (a n : Nat) : heap.Kept heap a n :=
  ⟨List.Subset.refl _, fun _ _ _ => rfl⟩

theorem BlockHeap.Kept.trans (first : heap.Kept heap' a n) (second : heap'.Kept heap'' a n) :
    heap.Kept heap'' a n where
  live := List.Subset.trans first.live second.live
  same x owns outside :=
    (second.same x (owns.mono first.live) outside).trans (first.same x owns outside)

/-- A change within a part is a change within the whole. -/
theorem BlockHeap.Kept.widen (kept : heap.Kept heap' b k) (low : a ≤ b) (high : b + k ≤ a + n) :
    heap.Kept heap' a n :=
  ⟨kept.live, fun x owns outside => kept.same x owns (by omega)⟩

/-- **The frame.** A region of the heap apart from the change holds the same bytes. -/
theorem BlockHeap.Kept.region (kept : heap.Kept heap' a n) (owns : heap.OwnsRange b k)
    (apart : b + k ≤ a ∨ a + n ≤ b) : Same heap.mem heap'.mem b k :=
  fun x low high => kept.same x (owns x low high) (by omega)

/-- A write within the region. -/
theorem BlockHeap.Kept.write {mem : Mem} (change : ChangedWithin heap.mem mem a n) :
    heap.Kept { heap with mem := mem } a n :=
  ⟨List.Subset.refl _, fun x _ outside => change x outside⟩

theorem BlockHeap.Kept.alloc {A : BlockAlloc} {size p : Nat}
    (granted : A.alloc heap size = some (heap', p)) : heap.Kept heap' a n where
  live := by
    rw [A.live granted]
    exact List.subset_cons_self _ _
  same x owns _ := A.keeps granted x owns

/-- A store into a granted block does not reach what was handed out before. -/
theorem BlockAlloc.store_outside {A : BlockAlloc} {size p : Nat} {bytes : List UInt8} {m : Mem}
    (granted : A.alloc heap size = some (heap', p)) (fits : bytes.length ≤ size) {x : Nat}
    (owned : heap.Owns x) : m.store p bytes x = m x := by
  refine Memory.store_outside ?_
  by_contra inside
  exact A.apart granted x (by omega) (by omega) owned

/-- **A block that is granted and written** changes nothing that was handed out before. -/
theorem BlockHeap.Kept.alloc_store {A : BlockAlloc} {size p : Nat} {bytes : List UInt8}
    (granted : A.alloc heap size = some (heap', p)) (fits : bytes.length ≤ size) :
    heap.Kept { heap' with mem := heap'.mem.store p bytes } a n where
  live := (BlockHeap.Kept.alloc (a := a) (n := n) granted).live
  same x owns _ := (BlockAlloc.store_outside granted fits owns).trans (A.keeps granted x owns)

/-- The blocks that were granted are not null. -/
theorem Granted.nonnull {A : BlockAlloc} {start : BlockHeap} {used : Nat}
    (granted : Granted A start heap used) :
    ∀ block ∈ heap.live, block ∈ start.live ∨ 0 < block.1 := by
  induction granted with
  | start => exact fun _ member => Or.inl member
  | alloc _ alloc ih =>
    intro block member
    rw [A.live alloc] at member
    rcases List.mem_cons.mp member with rfl | member
    · exact Or.inr (A.nonnull alloc)
    · exact ih block member
  | write _ _ ih => exact ih

/-- A granted block belongs to the heap. -/
theorem BlockAlloc.owns {A : BlockAlloc} {size p : Nat}
    (granted : A.alloc heap size = some (heap', p)) : heap'.OwnsRange p size :=
  fun x low high => ⟨(p, size), by
    rw [A.live granted]
    exact List.mem_cons_self, low, high⟩

end Heaps

/-! ### An allocator -/

/-- The first address behind all blocks. -/
def topOf (live : List (Nat × Nat)) : Nat := live.foldr (fun block top => max (block.1 + block.2) top) 1

/-- The allocator that puts every block behind all others. -/
def BlockAlloc.bump : BlockAlloc where
  alloc heap size :=
    if topOf heap.live + size ≤ 2 ^ 63 then
      some (⟨heap.mem, (topOf heap.live, size) :: heap.live⟩, topOf heap.live)
    else none
  nonnull granted := by
    obtain ⟨-, same⟩ := Option.ite_none_right_eq_some.mp granted
    obtain ⟨-, rfl⟩ := Prod.mk.inj (Option.some.inj same)
    exact one_le_topOf _
  bounded granted := by
    obtain ⟨room, same⟩ := Option.ite_none_right_eq_some.mp granted
    obtain ⟨-, rfl⟩ := Prod.mk.inj (Option.some.inj same)
    exact room
  live granted := by
    obtain ⟨-, same⟩ := Option.ite_none_right_eq_some.mp granted
    obtain ⟨rfl, rfl⟩ := Prod.mk.inj (Option.some.inj same)
    rfl
  apart granted x low _ owns := by
    obtain ⟨-, same⟩ := Option.ite_none_right_eq_some.mp granted
    obtain ⟨-, rfl⟩ := Prod.mk.inj (Option.some.inj same)
    obtain ⟨block, member, _, high⟩ := owns
    exact absurd (le_topOf member) (by omega)
  keeps granted x _ := by
    obtain ⟨-, same⟩ := Option.ite_none_right_eq_some.mp granted
    obtain ⟨rfl, -⟩ := Prod.mk.inj (Option.some.inj same)
    rfl
where
  one_le_topOf : ∀ live, 1 ≤ topOf live
    | [] => le_rfl
    | _ :: live => (one_le_topOf live).trans (le_max_right _ _)
  le_topOf {block : Nat × Nat} : ∀ {live}, block ∈ live → block.1 + block.2 ≤ topOf live
    | _ :: _, .head _ => le_max_left _ _
    | _ :: _, .tail _ member => (le_topOf member).trans (le_max_right _ _)

/-- The allocator refuses nothing below half of the address space. -/
theorem BlockAlloc.bump_roomy {start : BlockHeap} {budget : Nat}
    (small : topOf start.live + budget ≤ 2 ^ 63) : Roomy .bump start budget := by
  have bound : ∀ {heap used}, Granted .bump start heap used →
      topOf heap.live ≤ topOf start.live + used := by
    intro heap used granted
    induction granted with
    | start => exact le_rfl
    | alloc _ granted ih =>
      obtain ⟨-, same⟩ := Option.ite_none_right_eq_some.mp granted
      obtain ⟨rfl, -⟩ := Prod.mk.inj (Option.some.inj same)
      exact max_le (by omega) (ih.trans (by omega))
    | write mem _ ih => exact ih
  intro heap used size granted fits
  have := bound granted
  show Option.isSome (ite _ _ _) = true
  rw [if_pos (by omega)]
  rfl

end Vaudou.Memory
