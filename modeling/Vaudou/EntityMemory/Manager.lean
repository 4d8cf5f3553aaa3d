/-
**The entity memory of `mm.c`.**

Every allocation of an entity is a block of the buddy heap that starts with a `VD_EntityAllocationInfo`
(`size_t size`, `VD_EntityAllocationInfo *next`: 16 bytes). The entity's `MemoryComponent` points to
its first allocation, and `mm->entity.free_list` is the root of the list that the collector frees.

The world is the function that takes an entity to the `opaque_info_ptr` of its `MemoryComponent`, if it
has one. Calls run one after another, so a compare-and-swap finds what the load before it found. A
write through a null pointer is `none`, and so is a loop that has not ended when its fuel is used up.
-/

import Vaudou.Buddy.Blocks

namespace Vaudou

open Vaudou.Memory

/-- The entity part of `VD_MM`, with the memory of its heap, and the `MemoryComponent`s. -/
structure EntityMemory where
  mem : Mem
  allocator : BuddyAlloc
  freeListNext : Nat
  components : Nat → Option Nat

/-- The root of a list: `&mm->entity.free_list`, or an allocation. -/
inductive ListRoot where
  | freeList
  | info (p : Nat)
deriving DecidableEq, Repr

/-- `sizeof(VD_EntityAllocationInfo)`. -/
def entityAllocationInfoSize : Nat := 16

section Lists

variable (mm : EntityMemory)

/-- `info->next`. -/
def infoNext (mem : Mem) (info : Nat) : Nat := mem.readNat (info + 8) 8

/-- `info->next = next`. -/
def setInfoNext (info next : Nat) : EntityMemory :=
  { mm with mem := mm.mem.writeNat (info + 8) 8 next }

/-- `info->size = size`. -/
def setInfoSize (info size : Nat) : EntityMemory :=
  { mm with mem := mm.mem.writeNat info 8 size }

/-- `load_ptr(&root->next)`. -/
def loadNext : ListRoot → Nat
  | .freeList => mm.freeListNext
  | .info p => infoNext mm.mem p

/-- `root->next = next`. -/
def setNext (next : Nat) : ListRoot → EntityMemory
  | .freeList => { mm with freeListNext := next }
  | .info p => setInfoNext mm p next

/-- `compare_and_swap_ptr(&root->next, newValue, expected)`, which returns the old value. -/
def compareAndSwapNext (root : ListRoot) (newValue expected : Nat) : EntityMemory × Nat :=
  (if loadNext mm root = expected then setNext mm newValue root else mm, loadNext mm root)

/-- The loop of `add_entity_allocation`. -/
def addEntityAllocationLoop : (fuel : Nat) → EntityMemory → (root : ListRoot) → (info : Nat) →
    Option EntityMemory
  | 0, _, _, _ => none
  | fuel + 1, mm, root, info =>
    let prevNext := loadNext mm root
    let mm := setInfoNext mm info prevNext
    if prevNext = info then some mm
    else
      let swapped := compareAndSwapNext mm root info prevNext
      if swapped.2 ≠ 0 then addEntityAllocationLoop fuel swapped.1 root info else some swapped.1

/-- `add_entity_allocation`. In the round after a swap `prev_next` is `info`, so that the loop ends. -/
def addEntityAllocation (root : ListRoot) (info : Nat) : Option EntityMemory :=
  addEntityAllocationLoop 2 mm root info

/-- `memcpy` from `ptr` to behind the header of `info`. -/
def copyPrevious (info ptr prevsize : Nat) : EntityMemory :=
  if prevsize ≠ 0 then
    { mm with mem := mm.mem.store (info + entityAllocationInfoSize) (mm.mem.load ptr prevsize) }
  else mm

/-- The `MemoryComponent` of `entity` gets its first allocation, or the list behind it a new one. -/
def attachAllocation (entity info : Nat) : Option EntityMemory :=
  match mm.components entity with
  | some root => addEntityAllocation mm (.info root) info
  | none => some { mm with components := Function.update mm.components entity (some info) }

/-- `vd_entity_alloc`. -/
def entityAlloc (entity ptr prevsize newsize : Nat) : Option (EntityMemory × Nat) :=
  if newsize = 0 then some (mm, 0)
  else
    let size := (entityAllocationInfoSize + newsize) % 2 ^ 64
    (buddyAllocRealloc mm.mem mm.allocator 0 size).bind fun found =>
      let info := found.2
      if info = 0 then none
      else
        let mm := setInfoSize (setInfoNext { mm with mem := found.1 } info 0) info size
        (attachAllocation mm entity info).map fun mm =>
          (copyPrevious mm info ptr prevsize, info + entityAllocationInfoSize)

/-- The loop of `MemoryComponentDtor`. -/
def dtorLoop : (count : Nat) → EntityMemory → (info : Nat) → Option EntityMemory
  | 0, mm, _ => some mm
  | count + 1, mm, info =>
    (addEntityAllocation mm .freeList info).bind fun mm => dtorLoop count mm info

/-- `MemoryComponentDtor` on an array of components. Every round reads the first one. -/
def memoryComponentDtor (memory : List Nat) : Option EntityMemory :=
  dtorLoop memory.length mm (memory.headD 0)

/-- The loop of `GarbageCollectTask`: the memory and the pointers that were given back, in order. -/
def collectLoop (allocator : BuddyAlloc) : (fuel : Nat) → Mem → (currInfo : Nat) →
    Option (Mem × List Nat)
  | 0, _, _ => none
  | fuel + 1, mem, currInfo =>
    if currInfo = 0 then some (mem, [])
    else (buddyAllocRealloc mem allocator currInfo 0).bind fun freed =>
      (collectLoop allocator fuel freed.1 (infoNext freed.1 currInfo)).map fun rest =>
        (rest.1, currInfo :: rest.2)

/-- `GarbageCollectTask`. A list without a loop has fewer members than the heap has bytes. -/
def garbageCollectTask : Option (EntityMemory × List Nat) :=
  (collectLoop mm.allocator (mm.allocator.tail - mm.allocator.head + 1) mm.mem mm.freeListNext).map
    fun collected => ({ mm with mem := collected.1, freeListNext := 0 }, collected.2)

end Lists

/-- The entity part of `vd_mm_init`: 4 megabytes, alignment 8. -/
def entityMemoryInit (palloc : BuddyAllocationProc) (mem : Mem) : Option EntityMemory :=
  (buddyAllocInit palloc mem (4 * 1024 * 1024) 8).map fun init =>
    { mem := init.1, allocator := init.2, freeListNext := 0, components := fun _ => none }

end Vaudou
