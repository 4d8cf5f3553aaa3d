/-
**An entity allocation when the heap is exhausted.**

`vd_entity_alloc` writes the header of its new allocation without a look at the pointer that the buddy
allocator returned.

* `entityAlloc_returns_iff` — in a state that is in order, the call comes back exactly if nothing is asked
  for or the buddy allocator has a block.
* `exhausted_never_clean` — when it has none, the call does not fail cleanly, whatever the state.
-/

import Vaudou.EntityMemory.Collecting

namespace Vaudou

open Vaudou.Memory Vaudou.Run

/-- The buddy allocator has no block for an allocation of `newsize` bytes. -/
def NoBlock (mm : EntityMemory) (newsize : Nat) : Prop :=
  ∃ mem, buddyAllocRealloc mm.mem mm.allocator 0 ((entityAllocationInfoSize + newsize) % 2 ^ 64) =
    some (mem, 0)

/-- **A call that fails cleanly** returns null and leaves the list of the entity, its component and the
caller's block as they were. -/
def FailsCleanly (mm : EntityMemory) (entity ptr prevsize newsize : Nat) : Prop :=
  ∃ mm', entityAlloc mm entity ptr prevsize newsize = some (mm', 0) ∧
    mm'.components = mm.components ∧ Same mm.mem mm'.mem ptr prevsize ∧
    ∀ root, mm.components entity = some root →
      ∀ members, InfoList mm.mem root members → InfoList mm'.mem root members

section Exhaustion

variable {state : EntityRun} {mm : EntityMemory} {entity ptr prevsize newsize : Nat}

/-- **Without a block** the header is written through null. -/
theorem entityAlloc_noBlock (nonzero : newsize ≠ 0) (exhausted : NoBlock mm newsize) :
    entityAlloc mm entity ptr prevsize newsize = none := by
  obtain ⟨mem, refused⟩ := exhausted
  rw [entityAlloc, if_neg nonzero]
  dsimp only
  rw [refused]
  rfl

/-- A new block is attached to its entity. -/
theorem attachAllocation_returns (mm : EntityMemory) {info : Nat}
    (apart : ∀ root, mm.components entity = some root → HeadersApart root info)
    (word : info < 2 ^ 64) : ∃ mm', attachAllocation mm entity info = some mm' := by
  unfold attachAllocation
  cases here : mm.components entity with
  | none => exact ⟨_, rfl⟩
  | some root =>
    have rootApart : ListRoot.Apart (.info root) info := apart root here
    exact addEntityAllocation_returns rootApart word mm

/-- **The call comes back** exactly if nothing is asked for or there is a block. -/
theorem entityAlloc_returns_iff (orderly : state.Orderly)
    (small : entityAllocationInfoSize + newsize ≤ 2 ^ 62) :
    entityAlloc state.mm entity ptr prevsize newsize ≠ none ↔
      newsize = 0 ∨ ¬ NoBlock state.mm newsize := by
  by_cases zero : newsize = 0
  · rw [entityAlloc, if_pos zero]
    exact iff_of_true (Option.some_ne_none _) (Or.inl zero)
  · constructor
    · intro returns
      exact Or.inr fun exhausted => returns (entityAlloc_noBlock zero exhausted)
    · rintro (nothing | granted)
      · exact absurd nothing zero
      · obtain ⟨blocks, sound⟩ := orderly.heap
        have size : (entityAllocationInfoSize + newsize) % 2 ^ 64 = entityAllocationInfoSize + newsize :=
          Nat.mod_eq_of_lt (by omega)
        obtain ⟨k, found, -, -, ran, -⟩ := buddyAllocate_spec sound.aligned sound.headPos sound.bounded
          sound.tiles sound.nonempty small
        change buddyAllocRealloc state.mm.mem state.mm.allocator 0 _ = _ at ran
        have nonnull : found.2 ≠ 0 := fun null => granted ⟨found.1, by rw [size, ran, ← null]⟩
        -- the block is a live allocation of the heap
        have stepped : buddyStep state.heap (.allocate (entityAllocationInfoSize + newsize)) =
            some ⟨found.1, state.mm.allocator,
              state.live ++ [(found.2, entityAllocationInfoSize + newsize)]⟩ := by
          show (if _ then (buddyAllocRealloc state.mm.mem state.mm.allocator 0 _).map _ else none) = _
          rw [if_pos small, ran, Option.map_some, if_neg nonnull]
          rfl
        obtain ⟨blocks', kept⟩ := buddyStep_keeps sound stepped
        have new := List.mem_append_right state.live
          (List.mem_singleton_self (found.2, entityAllocationInfoSize + newsize))
        obtain ⟨b, there, -, low, high⟩ := kept.sound.live _ _ new
        have place : state.mm.allocator.head ≤ found.2 - 16 ∧
            found.2 - 16 + b.size ≤ state.mm.allocator.tail := kept.sound.tiles.block_le there
        have bounded : state.mm.allocator.tail ≤ 2 ^ 63 := sound.bounded
        have apart : ∀ root, state.mm.components entity = some root → HeadersApart root found.2 := by
          intro root here
          obtain ⟨-, a, member, -, rfl, live⟩ := orderly.component entity root here
          have old := mem_live member live
          have different : a.info ≠ found.2 := live_fresh kept.sound member live
          have room := orderly.room a member
          have header : entityAllocationInfoSize = 16 := rfl
          have blocksApart := kept.sound.live_apart (List.mem_append_left _ old) new different
          unfold HeadersApart
          omega
        have nearby : found.2 < 2 ^ 64 := by omega
        rw [entityAlloc, if_neg zero]
        dsimp only
        rw [size, ran, Option.bind_some, if_neg nonnull]
        obtain ⟨mm', attached⟩ := attachAllocation_returns (setInfoSize (setInfoNext
          { state.mm with mem := found.1 } found.2 0) found.2 (entityAllocationInfoSize + newsize))
          apart nearby
        rw [attached]
        exact Option.some_ne_none _

/-- **An allocation never fails cleanly.** In every state that a run on a new entity memory reaches, and
for every request for which the buddy allocator has no block, the call does not fail cleanly. -/
theorem exhausted_never_clean : ∀ (palloc : BuddyAllocationProc) (mem : Mem) (mm : EntityMemory),
    entityMemoryInit palloc mem = some mm →
    ∀ state, Reachable entityStep (entityStart mm) state →
    ∀ entity ptr prevsize newsize, newsize ≠ 0 → NoBlock state.mm newsize →
      ¬ FailsCleanly state.mm entity ptr prevsize newsize := by
  rintro palloc mem mm - state - entity ptr prevsize newsize nonzero exhausted ⟨mm', ran, -⟩
  rw [entityAlloc_noBlock nonzero exhausted] at ran
  cases ran

/-- An allocation of 3 megabytes takes the whole heap of 4. -/
def wholeHeap : List EntityOp := [.alloc 1 0 0 (3 * 1024 * 1024)]

/-- The state of the whole heap, and that it has no block for 10 bytes. -/
theorem wholeHeap_exhausted : ∃ mm, entityMemoryInit pagePalloc (fun _ => 0) = some mm ∧
    ∃ state, run entityStep (entityStart mm) wholeHeap = some state ∧ NoBlock state.mm 10 := by
  have reaches : ((entityMemoryInit pagePalloc fun _ => 0).any fun mm =>
      (run entityStep (entityStart mm) wholeHeap).any fun state =>
        (buddyAllocRealloc state.mm.mem state.mm.allocator 0 26).any fun found =>
          decide (found.2 = 0)) = true := by
    decide +kernel
  obtain ⟨mm, init, rest⟩ := (Option.any_eq_true _ _).mp reaches
  obtain ⟨state, ran, rest⟩ := (Option.any_eq_true _ _).mp rest
  obtain ⟨⟨found, p⟩, asked, null⟩ := (Option.any_eq_true _ _).mp rest
  obtain rfl : p = 0 := of_decide_eq_true null
  exact ⟨mm, init, state, ran, found, asked⟩

/-- Its next allocation does not fail cleanly. -/
theorem exhausted_never_clean_whole : ∃ mm, entityMemoryInit pagePalloc (fun _ => 0) = some mm ∧
    ∃ state, run entityStep (entityStart mm) wholeHeap = some state ∧ NoBlock state.mm 10 ∧
      ¬ FailsCleanly state.mm 2 0 0 10 := by
  obtain ⟨mm, init, state, ran, exhausted⟩ := wholeHeap_exhausted
  exact ⟨mm, init, state, ran, exhausted, exhausted_never_clean pagePalloc (fun _ => 0) mm init state
    ⟨wholeHeap, ran⟩ 2 0 0 10 (by decide) exhausted⟩

/-- **The heap is full**: the next allocation writes a header through null. -/
theorem full_heap_not_clean : ¬ ∀ (palloc : BuddyAllocationProc) (mem : Mem) (mm : EntityMemory),
    entityMemoryInit palloc mem = some mm →
    ∀ state, Reachable entityStep (entityStart mm) state →
    ∀ entity ptr prevsize newsize, newsize ≠ 0 → NoBlock state.mm newsize →
      FailsCleanly state.mm entity ptr prevsize newsize := by
  intro claimed
  obtain ⟨mm, init, state, ran, exhausted⟩ := wholeHeap_exhausted
  obtain ⟨mm', returned, -⟩ := claimed pagePalloc (fun _ => 0) mm init state ⟨wholeHeap, ran⟩ 2 0 0 10
    (by decide) exhausted
  rw [entityAlloc_noBlock (by decide) exhausted] at returned
  cases returned

end Exhaustion

end Vaudou
