/-
**The calls of the buddy allocator on a tiled heap.**

* `buddyAllocInit_spec` — a fresh heap is one free block.
* `buddyAllocate_spec` — an allocation rearranges free blocks and marks one of them used, or returns
  null after a search that met no block that suits.
* `buddyAllocGetStats_spec` — the walk from block to block covers the whole heap.
-/

import Vaudou.Buddy.Search
import Vaudou.Buddy.Sizes

namespace Vaudou

open Vaudou.Memory Vaudou.PowerOfTwo

variable {mem : Mem} {head tail a size : Nat} {b : Block} {blocks before rest : List Block}
  {alloc : BuddyAlloc}

/-! ### A fresh heap -/

section Init

/-- **`vd_buddy_alloc_init`** makes one free block of the rounded size. -/
theorem buddyAllocInit_spec {palloc : BuddyAllocationProc} {initialSize alignment : Nat} {mem' : Mem}
    (large : 16 ≤ initialSize) (word : initialSize < 2 ^ 64)
    (made : buddyAllocInit palloc mem initialSize alignment = some (mem', alloc)) :
    ∃ order, (Block.mk order true).size = roundUpToNextPowerOf2 initialSize ∧ 0 < alloc.head ∧
      alloc.tail ≤ 2 ^ 63 ∧ Tiles mem' alloc.head [⟨order, true⟩] alloc.tail := by
  obtain ⟨⟨block, fresh⟩, granted, same⟩ := Option.map_eq_some_iff.mp made
  obtain ⟨rfl, rfl⟩ := Prod.mk.inj same
  obtain ⟨blockPos, bounded⟩ := palloc.bounded granted
  obtain ⟨exact, wraps⟩ := roundUpToNextPowerOf2_spec (by omega) word
  have small : initialSize ≤ 2 ^ 63 := by
    by_contra tooLarge
    rw [wraps (Nat.not_le.mp tooLarge), palloc.frees] at granted
    cases granted
  obtain ⟨k, rounded, above, -⟩ := exact small
  have exponent : 4 ≤ k := by
    by_contra less
    have := Nat.pow_le_pow_right (show 0 < 2 by decide) (show k ≤ 3 by omega)
    omega
  obtain ⟨order, rfl⟩ := Nat.exists_eq_add_of_le exponent
  have size : (Block.mk order true).size = roundUpToNextPowerOf2 initialSize := by
    rw [rounded, pow_add]
    rfl
  have next : blockSize (setBlockIsFree (setBlockSize fresh block
      (roundUpToNextPowerOf2 initialSize)) block true) block = (Block.mk order true).size := by
    rw [blockSize_setBlockIsFree, ← size, blockSize_setBlockSize (by omega)]
  refine ⟨order, size, blockPos, ?_, ?_, ?_⟩
  · show nextBlock _ block ≤ 2 ^ 63
    rw [nextBlock, next, size]
    exact bounded
  · intro a b member
    obtain ⟨rfl, rfl⟩ := Prod.mk.inj (List.mem_singleton.mp member)
    exact ⟨next, blockIsFree_setBlockIsFree⟩
  · show block + total [_] = nextBlock _ block
    rw [nextBlock, next]
    rfl

end Init

/-! ### Allocating -/

section Allocate

/-- What an allocation leaves, if the size requirement is that of a block of order `k`. -/
inductive AllocateOutcome (alloc : BuddyAlloc) (k : Nat) (mem : Mem) (blocks : List Block)
    (result : Mem × Nat) : Prop
  | null (blocks' : List Block) (none : result.2 = 0)
      (tiles : Tiles result.1 alloc.head blocks' alloc.tail)
      (rearranged : Rearranged alloc.head mem blocks result.1 blocks')
      (nothing : ∀ b ∈ met blocks, b.free = true → b.size < (Block.mk k true).size)
  | block (mem' : Mem) (a : Nat) (blocks' : List Block)
      (same : result = (setBlockIsFree mem' a false, a + alloc.alignment))
      (tiles : Tiles mem' alloc.head blocks' alloc.tail)
      (rearranged : Rearranged alloc.head mem blocks mem' blocks')
      (found : (a, ⟨k, true⟩) ∈ placed alloc.head blocks')

/-- What an allocation leaves, if the alignment is 16. -/
inductive AllocateResult (alloc : BuddyAlloc) (k : Nat) (mem : Mem) (blocks : List Block)
    (result : Mem × Nat) : Prop
  | null (blocks' : List Block) (none : result.2 = 0)
      (tiles : Tiles result.1 alloc.head blocks' alloc.tail)
      (rearranged : Rearranged alloc.head mem blocks result.1 blocks')
      (nothing : ∀ b ∈ met blocks, b.free = true → b.size < (Block.mk k true).size)
  | block (mem' : Mem) (a : Nat) (blocks' : List Block)
      (same : result = (setBlockIsFree mem' a false, a + 16))
      (tiles : Tiles mem' alloc.head blocks' alloc.tail)
      (rearranged : Rearranged alloc.head mem blocks mem' blocks')
      (found : (a, ⟨k, true⟩) ∈ placed alloc.head blocks')

theorem Rearranged.nonempty {mem' : Mem} {blocks' : List Block}
    (rearranged : Rearranged head mem blocks mem' blocks') (nonempty : blocks ≠ []) :
    blocks' ≠ [] :=
  ne_nil_of_total rearranged.total nonempty

/-- **`vd_buddy_alloc_realloc(alloc, 0, size)`** ends if the size requirement is that of a block, and is
null only if the search meets no free block of that size or more. -/
theorem buddyAllocate_outcome {k : Nat} (headPos : 0 < alloc.head) (bounded : alloc.tail ≤ 2 ^ 63)
    (tiles : Tiles mem alloc.head blocks alloc.tail) (nonempty : blocks ≠ [])
    (required : sizeReq alloc size = some (Block.mk k true).size) :
    ∃ result, buddyAllocRealloc mem alloc 0 size = some result ∧
      AllocateOutcome alloc k mem blocks result := by
  have bounded' : alloc.tail < 2 ^ 64 := by omega
  obtain ⟨first, blocks₁, found₁, first_spec⟩ := buddyFind_spec tiles headPos bounded' nonempty k
  rw [buddyAllocRealloc, if_pos rfl, buddyAllocate, required, Option.bind_some, found₁,
    Option.bind_some]
  by_cases failed : first.2 = 0
  · rw [if_pos failed]
    have nonempty₁ := first_spec.rearranged.nonempty nonempty
    obtain ⟨mem₂, blocks₂, coalesced, tiles₂, rearranged₂⟩ :=
      buddyCoalescence_spec first_spec.tiles bounded' nonempty₁
    obtain ⟨second, blocks₃, found₃, second_spec⟩ := buddyFind_spec tiles₂ headPos bounded'
      (rearranged₂.nonempty nonempty₁) k
    have rearranged := (first_spec.rearranged.trans rearranged₂).trans second_spec.rearranged
    rw [coalesced, Option.bind_some, found₃, Option.map_some]
    by_cases failed' : second.2 = 0
    · rw [if_neg (fun found => found failed')]
      exact ⟨_, rfl, .null blocks₃ rfl second_spec.tiles rearranged (first_spec.none failed)⟩
    · rw [if_pos failed']
      exact ⟨_, rfl, .block _ _ blocks₃ rfl second_spec.tiles rearranged
        (second_spec.found failed')⟩
  · rw [if_neg failed, Option.map_some, if_pos failed]
    exact ⟨_, rfl, .block _ _ blocks₁ rfl first_spec.tiles first_spec.rearranged
      (first_spec.found failed)⟩

/-- **With an alignment of 16** it always ends, and the block has room for the header and the
request. -/
theorem buddyAllocate_spec (aligned : alloc.alignment = 16) (headPos : 0 < alloc.head)
    (bounded : alloc.tail ≤ 2 ^ 63) (tiles : Tiles mem alloc.head blocks alloc.tail)
    (nonempty : blocks ≠ []) (small : size ≤ 2 ^ 62) :
    ∃ k result, sizeReq alloc size = some (Block.mk k true).size ∧
      size + 16 ≤ (Block.mk k true).size ∧ buddyAllocRealloc mem alloc 0 size = some result ∧
      AllocateResult alloc k mem blocks result := by
  obtain ⟨k, required, room⟩ := sizeReq_spec aligned small
  obtain ⟨result, ran, outcome⟩ := buddyAllocate_outcome headPos bounded tiles nonempty required
  refine ⟨k, result, required, room, ran, ?_⟩
  cases outcome with
  | null blocks' none tiles rearranged nothing => exact .null blocks' none tiles rearranged nothing
  | block mem' a blocks' same tiles rearranged found =>
    rw [aligned] at same
    exact .block mem' a blocks' same tiles rearranged found

/-- **The flag of one block.** -/
theorem Tiles.flip (tiles : Tiles mem head blocks tail) (member : (a, b) ∈ placed head blocks)
    (free : Bool) :
    ∃ blocks', Tiles (setBlockIsFree mem a free) head blocks' tail ∧ total blocks' = total blocks ∧
      ∀ a' b', (a', b') ∈ placed head blocks' ↔
        (a' = a ∧ b' = ⟨b.order, free⟩) ∨ (a' ≠ a ∧ (a', b') ∈ placed head blocks) := by
  obtain ⟨before, rest, rfl, rfl⟩ := placed_split member
  have size : (Block.mk b.order free).size = b.size := rfl
  have wide := b.size_ge
  refine ⟨before ++ ⟨b.order, free⟩ :: rest, ?_, ?_, fun a' b' => ?_⟩
  · have header := tiles.here
    rw [one_middle] at tiles ⊢
    refine tiles.replace ?_ ?_ fun a' b' member => ?_
    · rw [total_cons, total_cons, size]
    · rw [total_cons, total_nil]
      exact (setBlockIsFree_changedWithin _ _ free).widen (Nat.le_refl _) (by omega)
    · obtain ⟨rfl, rfl⟩ := Prod.mk.inj (List.mem_singleton.mp member)
      exact header.setBlockIsFree free
  · simp only [total_append, total_cons, size]
  · have earlier : (a', b') ∈ placed head before → a' ≠ head + total before := fun member => by
      have := (placed_inside member).2
      have := b'.size_ge
      omega
    have later : (a', b') ∈ placed (head + total before + b.size) rest →
        a' ≠ head + total before := fun member => by
      have := (placed_inside member).1
      omega
    rw [placed_append, placed_append, List.mem_append, List.mem_append]
    show _ ∨ _ ∈ (head + total before, _) :: placed (head + total before + _) rest ↔
      _ ∨ _ ∧ (_ ∨ _ ∈ (head + total before, b) :: placed (head + total before + b.size) rest)
    rw [size, List.mem_cons, List.mem_cons, Prod.mk.injEq, Prod.mk.injEq]
    constructor
    · rintro (member | here | member)
      · exact Or.inr ⟨earlier member, Or.inl member⟩
      · exact Or.inl here
      · exact Or.inr ⟨later member, Or.inr (Or.inr member)⟩
    · rintro (here | ⟨other, member | ⟨same, -⟩ | member⟩)
      · exact Or.inr (Or.inl here)
      · exact Or.inl member
      · exact absurd same other
      · exact Or.inr (Or.inr member)

end Allocate

/-! ### Statistics -/

section Stats

/-- The counts of a list of blocks. -/
def BuddyStats.countAll (stats : BuddyStats) (blocks : List Block) : BuddyStats :=
  blocks.foldl (fun stats b => stats.count b.size b.free) stats

theorem getStatsLoop_spec : ∀ (fuel : Nat) (before rest : List Block) (stats : BuddyStats),
    Tiles mem head (before ++ rest) tail → rest.length < fuel →
    getStatsLoop mem tail fuel (head + total before) stats = some (stats.countAll rest)
  | 0, _, _, _, _, enough => absurd enough (Nat.not_lt_zero _)
  | fuel + 1, before, rest, stats, tiles, enough => by
    rw [getStatsLoop]
    match rest with
    | [] =>
      have ends := tiles.ends
      rw [total_append, total_nil] at ends
      rw [if_neg (by omega)]
      rfl
    | b :: rest =>
      have header := tiles.here
      have ends := tiles.ends_at
      have wide := b.size_ge
      have place : head + total before + b.size = head + total (before ++ [b]) := by
        rw [total_append, total_cons, total_nil]
        omega
      rw [one_middle] at tiles
      rw [if_pos (by omega), header.nextBlock, header.size, header.free, place]
      exact getStatsLoop_spec fuel (before ++ [b]) rest _ tiles (Nat.lt_of_succ_lt_succ enough)

/-- **`vd_buddy_alloc_get_stats`** counts the blocks of the tiling. -/
theorem buddyAllocGetStats_spec (tiles : Tiles mem alloc.head blocks alloc.tail) :
    buddyAllocGetStats mem alloc = some (BuddyStats.countAll ⟨0, 0, 0, 0⟩ blocks) :=
  getStatsLoop_spec _ [] blocks ⟨0, 0, 0, 0⟩ tiles tiles.length_lt

theorem countAll_total : ∀ (blocks : List Block) (stats : BuddyStats),
    (stats.countAll blocks).total = stats.total + total blocks
  | [], stats => rfl
  | b :: rest, stats => by
    have later := countAll_total rest (stats.count b.size b.free)
    rw [total_cons, ← Nat.add_assoc]
    exact later

end Stats

end Vaudou
