/-
**Reallocation with an allocation procedure.**

`BlockAlloc.realloc` is a procedure of the shape `alloc(ptr, prevsize, newsize)`: it gives back the block
at `ptr`, if that is not null, and grants a new one with the first bytes of the old one, if the new size
is not zero. The blocks that are outstanding are kept as a list, the last one granted in front.

`BlockHeap.Grown` is the frame of a program part that also gives blocks back, but only blocks that it
obtained itself: what was outstanding before is still outstanding, behind the blocks of the part.

* `realloc_granted` — what a call with a new size grants.
* `realloc_outstanding` — it leaves no fewer blocks outstanding.
* `realloc_grown` — a part that reallocates a block of its own keeps its frame.
-/

import Vaudou.Foundation.BlockHeap

namespace Vaudou.Memory

/-- The block at `ptr` is given back; nothing is at a null pointer. -/
def BlockHeap.release (heap : BlockHeap) (ptr : Nat) : BlockHeap :=
  if ptr = 0 then heap else { heap with live := heap.live.eraseP fun block => block.1 == ptr }

/-- `alloc(ptr, prevsize, newsize)`; `none` is a request that is refused. -/
def BlockAlloc.realloc (A : BlockAlloc) (heap : BlockHeap) (ptr prevsize newsize : Nat) :
    Option (BlockHeap × Nat) :=
  if newsize = 0 then some (heap.release ptr, 0)
  else (A.alloc (heap.release ptr) newsize).map fun granted =>
    ({ granted.1 with
        mem := granted.1.mem.store granted.2 (heap.mem.load ptr (min prevsize newsize)) }, granted.2)

/-- The second heap has the blocks of the first behind its own, and outside the `n` bytes from `a` on
their bytes. -/
structure BlockHeap.Grown (heap heap' : BlockHeap) (a n : Nat) : Prop where
  live : heap.live <:+ heap'.live
  same : ∀ x, heap.Owns x → x < a ∨ a + n ≤ x → heap'.mem x = heap.mem x

variable {A : BlockAlloc} {heap heap' heap'' base : BlockHeap} {ptr prevsize newsize p a b n k : Nat}
  {rest : List (Nat × Nat)}

@[simp] theorem release_null (heap : BlockHeap) : heap.release 0 = heap := rfl

/-- The block that was granted last is given back. -/
theorem release_last (nonnull : p ≠ 0) (last : heap.live = (p, n) :: rest) :
    (heap.release p).live = rest := by
  rw [BlockHeap.release, if_neg nonnull]
  show heap.live.eraseP _ = rest
  rw [last]
  exact List.eraseP_cons_of_pos (beq_self_eq_true p)

/-- At most one block is given back. -/
theorem release_outstanding (heap : BlockHeap) (ptr : Nat) :
    heap.live.length ≤ (heap.release ptr).live.length + 1 := by
  unfold BlockHeap.release
  split
  · exact Nat.le_succ _
  · show heap.live.length ≤ (heap.live.eraseP _).length + 1
    rw [List.length_eraseP]
    split <;> omega

/-- **A block of the new size** is granted. -/
theorem realloc_granted (some_ : newsize ≠ 0)
    (granted : A.realloc heap ptr prevsize newsize = some (heap', p)) :
    0 < p ∧ heap'.live = (p, newsize) :: (heap.release ptr).live := by
  rw [BlockAlloc.realloc, if_neg some_] at granted
  obtain ⟨⟨next, q⟩, alloc, same⟩ := Option.map_eq_some_iff.mp granted
  obtain ⟨rfl, rfl⟩ := Prod.mk.inj same
  have live : next.live = (q, newsize) :: (heap.release ptr).live := A.live alloc
  exact ⟨A.nonnull alloc, live⟩

/-- **A reallocation** leaves no fewer blocks outstanding. -/
theorem realloc_outstanding (some_ : newsize ≠ 0)
    (granted : A.realloc heap ptr prevsize newsize = some (heap', p)) :
    heap.live.length ≤ heap'.live.length := by
  rw [(realloc_granted some_ granted).2, List.length_cons]
  exact release_outstanding heap ptr

/-! ### Growing -/

theorem BlockHeap.Grown.kept (grown : heap.Grown heap' a n) : heap.Kept heap' a n :=
  ⟨grown.live.subset, grown.same⟩

theorem BlockHeap.Grown.refl (heap : BlockHeap) (a n : Nat) : heap.Grown heap a n :=
  ⟨List.suffix_refl _, fun _ _ _ => rfl⟩

theorem BlockHeap.Grown.trans (first : heap.Grown heap' a n) (second : heap'.Grown heap'' a n) :
    heap.Grown heap'' a n :=
  ⟨first.live.trans second.live, (first.kept.trans second.kept).same⟩

theorem BlockHeap.Grown.widen (grown : heap.Grown heap' b k) (low : a ≤ b) (high : b + k ≤ a + n) :
    heap.Grown heap' a n :=
  ⟨grown.live, (grown.kept.widen low high).same⟩

/-- A write within the region. -/
theorem BlockHeap.Grown.write {mem : Mem} (change : ChangedWithin heap.mem mem a n) :
    heap.Grown { heap with mem := mem } a n :=
  ⟨List.suffix_refl _, fun x _ outside => change x outside⟩

theorem BlockHeap.Grown.alloc {size : Nat} (granted : A.alloc heap size = some (heap', p)) :
    heap.Grown heap' a n := by
  refine ⟨?_, fun x owns _ => A.keeps granted x owns⟩
  rw [A.live granted]
  exact List.suffix_cons _ _

/-- **A change outside of what was handed out** belongs to every frame. -/
theorem BlockHeap.Grown.append (grown : base.Grown heap a n) (later : heap.Grown heap' b k)
    (new : ∀ x, b ≤ x → x < b + k → ¬ base.Owns x) : base.Grown heap' a n := by
  refine ⟨grown.live.trans later.live, fun x owns outside => ?_⟩
  have apart : x < b ∨ b + k ≤ x := by
    by_contra inside
    exact new x (by omega) (by omega) owns
  exact (later.same x (owns.mono grown.live.subset) apart).trans (grown.same x owns outside)

/-- A block in front of others is given back, and they are left. -/
theorem eraseP_suffix {older newer : List (Nat × Nat)} (own : ∃ block ∈ newer, block.1 = p) :
    older <:+ (newer ++ older).eraseP fun block => block.1 == p := by
  obtain ⟨block, member, same⟩ := own
  rw [List.eraseP_append_left (p := fun block => block.1 == p) (a := block) (by simp [same]) older member]
  exact List.suffix_append _ _

/-- **A block of its own is reallocated**: the frame is kept, and the new block starts with the bytes of
the old one. -/
theorem realloc_grown {newer : List (Nat × Nat)} (grown : base.Grown heap a n)
    (split : heap.live = newer ++ base.live) (own : ptr = 0 ∨ ∃ block ∈ newer, block.1 = ptr)
    (some_ : newsize ≠ 0) (granted : A.realloc heap ptr prevsize newsize = some (heap', p)) :
    base.Grown heap' a n ∧ (∃ newer', heap'.live = (p, newsize) :: (newer' ++ base.live)) ∧
      (∀ x, p ≤ x → x < p + newsize → ¬ base.Owns x) ∧ 0 < p ∧ p + newsize ≤ 2 ^ 63 ∧
        ∀ i, i < prevsize → i < newsize → heap'.mem (p + i) = heap.mem (ptr + i) := by
  have released : base.live <:+ (heap.release ptr).live := by
    rw [BlockHeap.release]
    split
    · exact grown.live
    next nonnull =>
      show base.live <:+ heap.live.eraseP _
      rw [split]
      exact eraseP_suffix (own.resolve_left nonnull)
  have memory : (heap.release ptr).mem = heap.mem := by
    rw [BlockHeap.release]
    split <;> rfl
  rw [BlockAlloc.realloc, if_neg some_] at granted
  obtain ⟨⟨next, q⟩, alloc, same⟩ := Option.map_eq_some_iff.mp granted
  obtain ⟨rfl, rfl⟩ := Prod.mk.inj same
  have live : next.live = (q, newsize) :: (heap.release ptr).live := A.live alloc
  have copied : (heap.mem.load ptr (min prevsize newsize)).length = min prevsize newsize := load_length
  have new : ∀ x, q ≤ x → x < q + newsize → ¬ base.Owns x := fun x low high owns =>
    A.apart alloc x low high (owns.mono released.subset)
  obtain ⟨newer', released_eq⟩ := released
  refine ⟨⟨?_, fun x owns outside => ?_⟩, ⟨newer', ?_⟩, new, A.nonnull alloc, A.bounded alloc,
    fun i old inside => ?_⟩
  · show base.live <:+ next.live
    rw [live, ← released_eq]
    exact (List.suffix_append _ _).trans (List.suffix_cons _ _)
  · show next.mem.store q _ x = base.mem x
    have fits : (heap.mem.load ptr (min prevsize newsize)).length ≤ newsize := by
      rw [copied]
      exact min_le_right _ _
    have owned : (heap.release ptr).Owns x := owns.mono fun block member => by
      rw [← released_eq]
      exact List.mem_append_right newer' member
    rw [BlockAlloc.store_outside alloc fits owned, A.keeps alloc x owned, memory]
    exact grown.same x owns outside
  · show next.live = _
    rw [live, released_eq]
  · show next.mem.store q _ (q + i) = _
    rw [store_inside (by rw [copied]; omega), load_getElem]

end Vaudou.Memory
