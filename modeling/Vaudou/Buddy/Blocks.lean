/-
**The buddy allocator of `vd_buddy_alloc.h`.**

The heap is a stretch of byte memory from `head` to `tail`. Each block starts with a `VD_BuddyBlock`
(`size_t size`, `int is_free`, `int reserved`: 16 bytes) and the next one starts `size` bytes on; there
are no other links. Pointers are naturals and 0 is null.

Sizes wrap at `2 ^ 64` where the source computes with a `size_t`; a store of a size drops the bits
above the word by itself. A loop that has not ended when its fuel is used up is `none`: every round of
the walks takes `block` closer to `tail`, every round of `split` halves a size, and every round of the
coalescing loop but the last joins two blocks.

`none` is also an assertion that fails, and a `palloc` that fails (its result is dereferenced).
-/

import Vaudou.Foundation.Memory
import Vaudou.Foundation.PowerOfTwo

namespace Vaudou

open Vaudou.Memory Vaudou.PowerOfTwo

/-- `VD_BuddyAllocationProc`: a `realloc` that takes a new size of 0 for a free and returns null. -/
structure BuddyAllocationProc extends Realloc where
  frees : ∀ m ptr prevsize, realloc m ptr prevsize 0 = none

/-- `VD_BuddyAlloc`, but for the procedure and its data. -/
structure BuddyAlloc where
  head : Nat
  tail : Nat
  alignment : Nat
deriving DecidableEq, Repr

/-- `sizeof(VD_BuddyBlock)`. -/
def buddyBlockSize : Nat := 16

/-! ### Arithmetic -/

/-- `vd_buddy_alloc__round_up_to_next_power_of_2`. -/
def roundUpToNextPowerOf2 (x : Nat) : Nat :=
  if x = 0 then 1
  else if x &&& (x - 1) = 0 then x
  else (smearAll (x - 1) + 1) % 2 ^ 64

/-- `vd_buddy_alloc__is_power_of_two`. -/
def isPowerOfTwo (n : Nat) : Bool := n != 0 && n &&& (n - 1) == 0

/-- `vd_buddy_alloc__align_forward`. -/
def alignForward (ptr align : Nat) : Option Nat :=
  if isPowerOfTwo align then
    if ptr &&& (align - 1) ≠ 0 then some ((ptr + (align - (ptr &&& (align - 1)))) % 2 ^ 64)
    else some ptr
  else none

/-- The loop of `vd_buddy_alloc__size_req`. -/
def sizeReqLoop : (fuel size actualSize : Nat) → Option Nat
  | 0, _, _ => none
  | fuel + 1, size, actualSize =>
    if actualSize < size then sizeReqLoop fuel size (actualSize * 2 % 2 ^ 64) else some actualSize

/-- `vd_buddy_alloc__size_req`. After 64 doublings the size is 0 for good. -/
def sizeReq (alloc : BuddyAlloc) (size : Nat) : Option Nat :=
  (alignForward ((size + buddyBlockSize) % 2 ^ 64) alloc.alignment).bind fun size =>
    sizeReqLoop 65 size alloc.alignment

/-! ### Block headers -/

section Headers

variable (mem : Mem) (block : Nat)

/-- `block->size`. -/
def blockSize : Nat := mem.readNat block 8

/-- `block->is_free`. -/
def blockIsFree : Bool := mem.readNat (block + 8) 4 != 0

/-- `block->size = size`. -/
def setBlockSize (size : Nat) : Mem := mem.writeNat block 8 size

/-- `block->is_free = isFree`. -/
def setBlockIsFree (isFree : Bool) : Mem := mem.writeNat (block + 8) 4 isFree.toNat

/-- `vd_buddy_alloc__next_block`. -/
def nextBlock : Nat := block + blockSize mem block

end Headers

/-! ### Splitting -/

/-- The loop of `vd_buddy_alloc__split`. -/
def splitLoop : (fuel : Nat) → Mem → (block size : Nat) → Option (Mem × Nat)
  | 0, _, _, _ => none
  | fuel + 1, mem, block, size =>
    if size < blockSize mem block then
      let sz := blockSize mem block / 2
      let left := setBlockSize mem block sz
      let right := nextBlock left block
      splitLoop fuel (setBlockIsFree (setBlockSize left right sz) right true) right size
    else some (mem, block)

/-- `vd_buddy_alloc__split`. After 64 halvings a size is 0. -/
def buddySplit (mem : Mem) (block size : Nat) : Option (Mem × Nat) :=
  if block = 0 ∨ size = 0 then some (mem, 0)
  else (splitLoop 65 mem block size).map fun result =>
    if size ≤ blockSize result.1 result.2 then result else (result.1, 0)

/-! ### Searching -/

/-- `block` and `buddy` are joined when the walk meets them. -/
def joins (mem : Mem) (block buddy : Nat) : Prop :=
  blockIsFree mem block = true ∧ blockIsFree mem buddy = true ∧
    blockSize mem block = blockSize mem buddy

instance (mem : Mem) (block buddy : Nat) : Decidable (joins mem block buddy) :=
  inferInstanceAs (Decidable (_ ∧ _ ∧ _))

/-- `block->size <<= 1`. -/
def doubleBlock (mem : Mem) (block : Nat) : Mem := setBlockSize mem block (blockSize mem block * 2)

/-- The buddy after `block` has moved: the next block, unless `block` is past the end. -/
def nextBuddy (mem : Mem) (tail block buddy : Nat) : Nat :=
  if block < tail then nextBlock mem block else buddy

/-- `best` after a join. -/
def bestJoined (mem : Mem) (size block best : Nat) : Nat :=
  if size ≤ blockSize mem block ∧ (best = 0 ∨ blockSize mem block ≤ blockSize mem best) then block
  else best

/-- `best` after a look at `block`. -/
def bestBlock (mem : Mem) (size block best : Nat) : Nat :=
  if blockIsFree mem block = true ∧ size ≤ blockSize mem block ∧
    (best = 0 ∨ blockSize mem block ≤ blockSize mem best) then block else best

/-- `best` after a look at `buddy`. -/
def bestBuddy (mem : Mem) (size buddy best : Nat) : Nat :=
  if blockIsFree mem buddy = true ∧ size ≤ blockSize mem buddy ∧
    (best = 0 ∨ blockSize mem buddy < blockSize mem best) then buddy else best

/-- The loop of `vd_buddy_alloc__find`. -/
def findLoop (tail size : Nat) : (fuel : Nat) → Mem → (block buddy best : Nat) →
    Option (Mem × Nat)
  | 0, _, _, _, _ => none
  | fuel + 1, mem, block, buddy, best =>
    if block < tail ∧ buddy < tail then
      if joins mem block buddy then
        let joined := doubleBlock mem block
        let next := nextBlock joined buddy
        findLoop tail size fuel joined next (nextBuddy joined tail next buddy)
          (bestJoined joined size block best)
      else
        let best := bestBuddy mem size buddy (bestBlock mem size block best)
        if blockSize mem block ≤ blockSize mem buddy then
          let next := nextBlock mem buddy
          findLoop tail size fuel mem next (nextBuddy mem tail next buddy) best
        else findLoop tail size fuel mem buddy (nextBlock mem buddy) best
    else some (mem, best)

/-- `vd_buddy_alloc__find`. -/
def buddyFind (mem : Mem) (head tail size : Nat) : Option (Mem × Nat) :=
  let buddy := nextBlock mem head
  if buddy = tail ∧ blockIsFree mem head = true then buddySplit mem head size
  else (findLoop tail size (tail - head + 1) mem head buddy 0).bind fun found =>
    if found.2 ≠ 0 then buddySplit found.1 found.2 size else some (found.1, 0)

/-! ### Coalescing -/

/-- One pass of `vd_buddy_alloc__coalescence`, and whether it ends the loop. -/
def coalescencePass (tail : Nat) : (fuel : Nat) → Mem → (block buddy : Nat) →
    (noCoalescence : Bool) → Option (Mem × Bool)
  | 0, _, _, _, _ => none
  | fuel + 1, mem, block, buddy, noCoalescence =>
    if block < tail ∧ buddy < tail then
      if joins mem block buddy then
        let joined := doubleBlock mem block
        let next := nextBlock joined block
        coalescencePass tail fuel joined next (nextBuddy joined tail next buddy)
          (if next < tail then false else noCoalescence)
      else if blockSize mem block < blockSize mem buddy then
        coalescencePass tail fuel mem buddy (nextBlock mem buddy) noCoalescence
      else
        let next := nextBlock mem buddy
        coalescencePass tail fuel mem next (nextBuddy mem tail next buddy) noCoalescence
    else some (mem, noCoalescence)

/-- The outer loop of `vd_buddy_alloc__coalescence`. -/
def coalescenceLoop (head tail : Nat) : (fuel : Nat) → Mem → Option Mem
  | 0, _ => none
  | fuel + 1, mem =>
    (coalescencePass tail (tail - head + 1) mem head (nextBlock mem head) true).bind fun pass =>
      if pass.2 then some pass.1 else coalescenceLoop head tail fuel pass.1

/-- `vd_buddy_alloc__coalescence`. -/
def buddyCoalescence (mem : Mem) (head tail : Nat) : Option Mem :=
  coalescenceLoop head tail (tail - head + 1) mem

/-! ### The allocator -/

/-- `vd_buddy_alloc_init`. -/
def buddyAllocInit (palloc : BuddyAllocationProc) (mem : Mem) (initialSize alignment : Nat) :
    Option (Mem × BuddyAlloc) :=
  let alignment := roundUpToNextPowerOf2 alignment
  let initialSize := roundUpToNextPowerOf2 initialSize
  (palloc.realloc mem 0 0 initialSize).map fun memory =>
    let head := memory.1
    let mem := setBlockIsFree (setBlockSize memory.2 head initialSize) head true
    (mem, ⟨head, nextBlock mem head, if alignment < buddyBlockSize then buddyBlockSize else alignment⟩)

/-- `vd_buddy_alloc_realloc` with a null pointer. -/
def buddyAllocate (mem : Mem) (alloc : BuddyAlloc) (size : Nat) : Option (Mem × Nat) :=
  (sizeReq alloc size).bind fun actualSize =>
    (buddyFind mem alloc.head alloc.tail actualSize).bind fun first =>
      (if first.2 = 0 then
        (buddyCoalescence first.1 alloc.head alloc.tail).bind fun mem =>
          buddyFind mem alloc.head alloc.tail actualSize
      else some first).map fun found =>
        if found.2 ≠ 0 then (setBlockIsFree found.1 found.2 false, found.2 + alloc.alignment)
        else (found.1, 0)

/-- `vd_buddy_alloc_realloc`. -/
def buddyAllocRealloc (mem : Mem) (alloc : BuddyAlloc) (ptr size : Nat) : Option (Mem × Nat) :=
  if ptr = 0 then buddyAllocate mem alloc size
  else if size = 0 then
    if alloc.head ≤ ptr ∧ ptr ≤ alloc.tail then
      some (setBlockIsFree mem (ptr - alloc.alignment) true, 0)
    else none
  else some (mem, 0)

/-! ### Statistics -/

/-- The results of `vd_buddy_alloc_get_stats`. -/
structure BuddyStats where
  used : Nat
  total : Nat
  numBlocks : Nat
  numFreeBlocks : Nat
deriving DecidableEq, Repr

/-- A block more. -/
def BuddyStats.count (stats : BuddyStats) (size : Nat) (isFree : Bool) : BuddyStats :=
  { used := if isFree then stats.used else stats.used + size
    total := stats.total + size
    numBlocks := stats.numBlocks + 1
    numFreeBlocks := if isFree then stats.numFreeBlocks + 1 else stats.numFreeBlocks }

/-- The loop of `vd_buddy_alloc_get_stats`. -/
def getStatsLoop (mem : Mem) (tail : Nat) : (fuel block : Nat) → BuddyStats → Option BuddyStats
  | 0, _, _ => none
  | fuel + 1, block, stats =>
    if block < tail then
      getStatsLoop mem tail fuel (nextBlock mem block)
        (stats.count (blockSize mem block) (blockIsFree mem block))
    else some stats

/-- `vd_buddy_alloc_get_stats`. -/
def buddyAllocGetStats (mem : Mem) (alloc : BuddyAlloc) : Option BuddyStats :=
  getStatsLoop mem alloc.tail (alloc.tail - alloc.head + 1) alloc.head ⟨0, 0, 0, 0⟩

end Vaudou
