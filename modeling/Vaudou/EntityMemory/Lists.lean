/-
**What the entity lists do to the heap.**

The list operations write into the headers of allocations only, so the heap stays sound and every
allocation that is not touched keeps its bytes (`HeapKeeps`).

* `entityAlloc_keeps` — an allocation gets a block of its own and touches, besides it, only the first
  allocation of its entity.
* `addEntityAllocation_empty` — a push onto an empty list.
* `collectLoop_single` — the collector on a list of one.
-/

import Vaudou.Buddy.Runs
import Vaudou.EntityMemory.Manager

namespace Vaudou

open Vaudou.Memory

/-- The bytes behind the block header of the block for a request. -/
def blockRoom (allocator : BuddyAlloc) (newsize : Nat) : Nat :=
  (sizeReq allocator (entityAllocationInfoSize + newsize)).getD 0 - buddyBlockSize

/-- The heap is sound, nothing has been freed, and the live allocations that are not touched keep their
headers and payloads. -/
structure HeapKeeps (heap heap' : BuddyHeap) (touched : Nat → Prop) : Prop where
  sound : ∃ blocks, heap'.Sound blocks
  alloc : heap'.alloc = heap.alloc
  live : ∀ entry ∈ heap.live, entry ∈ heap'.live
  same : ∀ p n, (p, n) ∈ heap.live → ¬ touched p → Same heap.mem heap'.mem (p - 16) (16 + n)

variable {heap heap₁ : BuddyHeap} {touched : Nat → Prop} {mm mm' : EntityMemory} {info p n : Nat}
  {live : List (Nat × Nat)} {blocks : List Block}

theorem HeapKeeps.refl (sound : heap.Sound blocks) (touched : Nat → Prop) :
    HeapKeeps heap heap touched :=
  ⟨⟨blocks, sound⟩, rfl, fun _ member => member, fun p n _ _ => Same.refl heap.mem (p - 16) (16 + n)⟩

/-- A write into a payload that may be touched. -/
theorem HeapKeeps.write (keeps : HeapKeeps heap heap₁ touched) {offset : Nat} {bytes : List UInt8}
    (member : (p, n) ∈ heap₁.live) (isTouched : touched p) (fits : offset + bytes.length ≤ n) :
    HeapKeeps heap { heap₁ with mem := heap₁.mem.store (p + offset) bytes } touched := by
  obtain ⟨blocks, sound⟩ := keeps.sound
  have stepped : buddyStep heap₁ (.write p offset bytes) =
      some { heap₁ with mem := heap₁.mem.store (p + offset) bytes } := by
    rw [buddyStep, if_pos (List.any_eq_true.mpr ⟨(p, n), member, by simpa using fits⟩)]
  obtain ⟨blocks', written⟩ := buddyStep_keeps sound stepped
  refine ⟨⟨blocks', written.sound⟩, keeps.alloc, keeps.live, fun q m other untouched => ?_⟩
  refine (keeps.same q m other untouched).trans (written.others.live q m (keeps.live _ other) ?_)
  intro target
  obtain rfl := Option.some.inj target
  exact untouched isTouched

/-- A write of a `next` link. -/
theorem HeapKeeps.setInfoNext (mm : EntityMemory) (m : Nat)
    (keeps : HeapKeeps heap ⟨mm.mem, mm.allocator, live⟩ touched) (member : (p, n) ∈ live)
    (room : 16 ≤ n) (isTouched : touched p) :
    HeapKeeps heap ⟨(setInfoNext mm p m).mem, mm.allocator, live⟩ touched := by
  have fits : 8 + (leBytes 8 m).length ≤ n := by
    rw [leBytes_length]
    omega
  exact keeps.write member isTouched fits

theorem HeapKeeps.setInfoSize (mm : EntityMemory) (m : Nat)
    (keeps : HeapKeeps heap ⟨mm.mem, mm.allocator, live⟩ touched) (member : (p, n) ∈ live)
    (room : 16 ≤ n) (isTouched : touched p) :
    HeapKeeps heap ⟨(setInfoSize mm p m).mem, mm.allocator, live⟩ touched := by
  have fits : 0 + (leBytes 8 m).length ≤ n := by
    rw [leBytes_length]
    omega
  have written := keeps.write member isTouched fits
  rw [Nat.add_zero] at written
  exact written

/-! ### Lists -/

section Lists

/-- The code's state around the memory stays. -/
structure SameAround (mm mm' : EntityMemory) : Prop where
  allocator : mm'.allocator = mm.allocator
  freeListNext : mm'.freeListNext = mm.freeListNext
  components : mm'.components = mm.components

/-- A compare-and-swap on the link of an allocation. -/
theorem compareAndSwapNext_keeps {root rootRoom n m : Nat}
    (keeps : HeapKeeps heap ⟨mm.mem, mm.allocator, live⟩ touched)
    (rootLive : (root, rootRoom) ∈ live) (rootSpace : 16 ≤ rootRoom) (rootTouched : touched root) :
    HeapKeeps heap ⟨(compareAndSwapNext mm (.info root) n m).1.mem, mm.allocator, live⟩
      touched ∧ SameAround mm (compareAndSwapNext mm (.info root) n m).1 := by
  unfold compareAndSwapNext
  dsimp only
  split
  · exact ⟨keeps.setInfoNext mm n rootLive rootSpace rootTouched, rfl, rfl, rfl⟩
  · exact ⟨keeps, rfl, rfl, rfl⟩

theorem addEntityAllocationLoop_keeps {root rootRoom room fuel : Nat}
    (infoLive : (info, room) ∈ live) (rootLive : (root, rootRoom) ∈ live) (infoRoom : 16 ≤ room)
    (rootSpace : 16 ≤ rootRoom) (infoTouched : touched info) (rootTouched : touched root)
    (keeps : HeapKeeps heap ⟨mm.mem, mm.allocator, live⟩ touched)
    (ran : addEntityAllocationLoop fuel mm (.info root) info = some mm') :
    HeapKeeps heap ⟨mm'.mem, mm.allocator, live⟩ touched ∧ SameAround mm mm' := by
  induction fuel generalizing mm with
  | zero => cases ran
  | succ fuel ih =>
    rw [addEntityAllocationLoop] at ran
    dsimp only at ran
    generalize loadNext mm (.info root) = prevNext at ran
    have linked := keeps.setInfoNext mm prevNext infoLive infoRoom infoTouched
    split at ran
    · obtain rfl := Option.some.inj ran
      exact ⟨linked, rfl, rfl, rfl⟩
    · have swapped := compareAndSwapNext_keeps (n := info) (m := prevNext) linked rootLive rootSpace
        rootTouched
      split at ran
      · obtain ⟨keeps', around⟩ := ih (by rw [swapped.2.allocator]; exact swapped.1) ran
        rw [swapped.2.allocator] at keeps'
        exact ⟨keeps', around.allocator.trans swapped.2.allocator,
          around.freeListNext.trans swapped.2.freeListNext,
          around.components.trans swapped.2.components⟩
      · obtain rfl := Option.some.inj ran
        exact ⟨swapped.1, swapped.2.allocator, swapped.2.freeListNext, swapped.2.components⟩

/-- **A push onto an empty free list.** -/
theorem addEntityAllocation_empty (empty : mm.freeListNext = 0) (nonzero : info ≠ 0) :
    addEntityAllocation mm .freeList info =
      some { setInfoNext mm info 0 with freeListNext := info } := by
  rw [addEntityAllocation, addEntityAllocationLoop]
  simp only [loadNext, compareAndSwapNext, setNext, setInfoNext, empty, if_neg nonzero.symm, if_true,
    ne_eq, not_true, if_false]

theorem infoNext_setInfoNext {next : Nat} (fits : next < 2 ^ 64) :
    infoNext (setInfoNext mm info next).mem info = next := readNat_writeNat_lt (by omega)

/-- The link of an allocation is part of its payload. -/
theorem infoNext_congr {mem mem' : Mem} (same : Same mem mem' (p - 16) (16 + n)) (low : 16 ≤ p)
    (room : 16 ≤ n) : infoNext mem' p = infoNext mem p :=
  readNat_congr (same.part (by omega) (by omega))

end Lists

/-! ### Allocating -/

section Allocate

/-- The new allocation becomes the first of its entity, or is linked behind it. -/
theorem attachAllocation_keeps {entity room : Nat}
    (keeps : HeapKeeps heap ⟨mm.mem, mm.allocator, live⟩ touched)
    (roots : ∀ root, mm.components entity = some root →
      (∃ rootRoom, (root, rootRoom) ∈ live ∧ 16 ≤ rootRoom) ∧ touched root)
    (member : (info, room) ∈ live) (space : 16 ≤ room) (isTouched : touched info)
    (attached : attachAllocation mm entity info = some mm') :
    HeapKeeps heap ⟨mm'.mem, mm'.allocator, live⟩ touched ∧ mm'.allocator = mm.allocator ∧
      mm'.freeListNext = mm.freeListNext ∧
      (mm.components entity ≠ none ∧ mm'.components = mm.components ∨
        mm.components entity = none ∧
          mm'.components = Function.update mm.components entity (some info)) := by
  unfold attachAllocation at attached
  split at attached
  · rename_i root here
    obtain ⟨⟨rootRoom, rootLive, rootSpace⟩, rootTouched⟩ := roots root here
    obtain ⟨keeps', around⟩ := addEntityAllocationLoop_keeps member rootLive space rootSpace isTouched
      rootTouched keeps attached
    rw [← around.allocator] at keeps'
    refine ⟨keeps', around.allocator, around.freeListNext, Or.inl ⟨?_, around.components⟩⟩
    rw [here]
    exact Option.some_ne_none root
  · rename_i here
    obtain rfl := Option.some.inj attached
    exact ⟨keeps, rfl, rfl, Or.inr ⟨here, rfl⟩⟩

/-- **`vd_entity_alloc`** makes a new allocation and touches no other but the first one of its
entity. -/
theorem entityAlloc_keeps (sound : BuddyHeap.Sound ⟨mm.mem, mm.allocator, live⟩ blocks)
    {entity ptr prevsize newsize result : Nat} (nonzero : newsize ≠ 0)
    (small : entityAllocationInfoSize + newsize ≤ 2 ^ 62)
    (roots : ∀ root, mm.components entity = some root → ∃ rootRoom, (root, rootRoom) ∈ live ∧
      16 ≤ rootRoom)
    (copies : prevsize ≠ 0 →
      entityAllocationInfoSize + prevsize ≤ blockRoom mm.allocator newsize)
    (ran : entityAlloc mm entity ptr prevsize newsize = some (mm', result)) :
    ∃ info, result = info + entityAllocationInfoSize ∧ 16 ≤ blockRoom mm.allocator newsize ∧
      HeapKeeps ⟨mm.mem, mm.allocator, live⟩
        ⟨mm'.mem, mm'.allocator, live ++ [(info, blockRoom mm.allocator newsize)]⟩
        (fun p => p = info ∨ mm.components entity = some p) ∧
      mm'.allocator = mm.allocator ∧ mm'.freeListNext = mm.freeListNext ∧
      (mm.components entity ≠ none ∧ mm'.components = mm.components ∨
        mm.components entity = none ∧
          mm'.components = Function.update mm.components entity (some info)) := by
  have size : (entityAllocationInfoSize + newsize) % 2 ^ 64 = entityAllocationInfoSize + newsize :=
    Nat.mod_eq_of_lt (by omega)
  rw [entityAlloc, if_neg nonzero, size] at ran
  obtain ⟨found, granted, rest⟩ := Option.bind_eq_some_iff.mp ran
  obtain ⟨nonnull, rest⟩ := Option.ite_none_left_eq_some.mp rest
  obtain ⟨attached, attach, same⟩ := Option.map_eq_some_iff.mp rest
  obtain ⟨rfl, rfl⟩ := Prod.mk.inj same
  obtain ⟨k, result, required, enough, granted', outcome⟩ := buddyAllocate_spec sound.aligned
    sound.headPos sound.bounded sound.tiles sound.nonempty small
  cases granted.symm.trans granted'
  have room : blockRoom mm.allocator newsize = (Block.mk k true).size - 16 := by
    rw [blockRoom, required]
    rfl
  have header : entityAllocationInfoSize = 16 := rfl
  cases outcome with
  | null blocks' none tiles rearranged nothing => exact absurd none nonnull
  | block mem' a blocks' same tiles rearranged there =>
    subst same
    have rearrange := sound.rearrange tiles rearranged
    obtain ⟨blocks'', taken⟩ := rearrange.take there
      (show blockRoom mm.allocator newsize + 16 ≤ (Block.mk k true).size by omega)
    have member : (a + 16, blockRoom mm.allocator newsize) ∈
        live ++ [(a + 16, blockRoom mm.allocator newsize)] :=
      List.mem_append_right _ (List.mem_singleton_self _)
    have space : 16 ≤ blockRoom mm.allocator newsize := by omega
    have granting : HeapKeeps ⟨mm.mem, mm.allocator, live⟩
        ⟨setBlockIsFree mem' a false, mm.allocator,
          live ++ [(a + 16, blockRoom mm.allocator newsize)]⟩
        (fun p => p = a + 16 ∨ mm.components entity = some p) := by
      refine ⟨⟨blocks'', taken.sound⟩, rfl, fun entry older => List.mem_append_left _ older,
        fun p n older _ => ?_⟩
      have first := (sound.rearrange_others (.allocate 0) rearranged).live p n older (nomatch ·)
      exact first.trans (taken.others.live p n older (nomatch ·))
    have linked := granting.setInfoNext { mm with mem := setBlockIsFree mem' a false } 0 member space
      (Or.inl rfl)
    have sized := linked.setInfoSize
      (setInfoNext { mm with mem := setBlockIsFree mem' a false } (a + 16) 0)
      (entityAllocationInfoSize + newsize) member space (Or.inl rfl)
    have firsts : ∀ root, mm.components entity = some root →
        (∃ rootRoom, (root, rootRoom) ∈ live ++ [(a + 16, blockRoom mm.allocator newsize)] ∧
          16 ≤ rootRoom) ∧ (root = a + 16 ∨ mm.components entity = some root) := by
      intro root here
      obtain ⟨rootRoom, rootLive, rootSpace⟩ := roots root here
      exact ⟨⟨rootRoom, List.mem_append_left _ rootLive, rootSpace⟩, Or.inr here⟩
    obtain ⟨keeps, allocator, freeListNext, components⟩ :=
      attachAllocation_keeps sized firsts member space (Or.inl rfl) attach
    refine ⟨a + 16, rfl, space, ?_⟩
    unfold copyPrevious
    split
    · rename_i copied
      have fits : entityAllocationInfoSize + (attached.mem.load ptr prevsize).length ≤
          blockRoom mm.allocator newsize := by
        rw [load_length]
        exact copies copied
      exact ⟨keeps.write member (Or.inl rfl) fits, allocator, freeListNext, components⟩
    · exact ⟨keeps, allocator, freeListNext, components⟩

end Allocate

/-! ### Collecting -/

section Collect

/-- **A pass over a list of one** gives back its member. -/
theorem collectLoop_single (sound : BuddyHeap.Sound ⟨mm.mem, mm.allocator, live⟩ blocks)
    (member : (info, n) ∈ live) (room : 16 ≤ n) (last : infoNext mm.mem info = 0) (fuel : Nat) :
    ∃ mem' blocks', collectLoop mm.allocator (fuel + 2) mm.mem info = some (mem', [info]) ∧
      BuddyHeap.Sound ⟨mem', mm.allocator, live.filter (·.1 != info)⟩ blocks' := by
  obtain ⟨heap', stepped⟩ := free_defined sound member
  obtain ⟨blocks', kept⟩ := buddyStep_keeps sound stepped
  obtain ⟨-, freed⟩ := Option.ite_none_right_eq_some.mp stepped
  obtain ⟨result, ran, rfl⟩ := Option.map_eq_some_iff.mp freed
  obtain ⟨b, there, used, low, high⟩ := sound.live info n member
  have place : mm.allocator.head ≤ info - 16 ∧ info - 16 + b.size ≤ mm.allocator.tail :=
    sound.tiles.block_le there
  have wide := b.size_ge
  refine ⟨result.1, blocks', ?_, kept.sound⟩
  have aligned : mm.allocator.alignment = 16 := sound.aligned
  have flagged : result = (setBlockIsFree mm.mem (info - 16) true, 0) := by
    change buddyAllocRealloc mm.mem mm.allocator info 0 = some result at ran
    rw [buddyAllocRealloc, if_neg (by omega), if_pos rfl, if_pos (by omega), aligned] at ran
    exact (Option.some.inj ran).symm
  have next : infoNext result.1 info = 0 := by
    have change := setBlockIsFree_changedWithin mm.mem (info - 16) true
    rw [flagged, ← last]
    exact readNat_congr (change.same (Or.inr (by omega)))
  rw [collectLoop, if_neg (by omega), ran, Option.bind_some, next, collectLoop, if_pos rfl]
  rfl

end Collect

end Vaudou
