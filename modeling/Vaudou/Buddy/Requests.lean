/-
**Requests at any alignment.**

A block starts with a header of 16 bytes, and the pointer to it is `alignment` bytes in. The size
requirement makes room for the header, not for the alignment: with an alignment of 64, a request for 40
bytes takes a block of 64 and gets a pointer to its end.

* `buddyCalls_placed` — in every heap that a run reaches, the live pointers belong to used blocks.
* `requestSound_iff` — which requests are served with bytes that lie inside the block.
-/

import Vaudou.Buddy.Runs

namespace Vaudou

open Vaudou.Memory Vaudou.PowerOfTwo Vaudou.Run

variable {heap heap' : BuddyHeap} {blocks : List Block} {m k size : Nat}

/-! ### Clients -/

/-- One call of a client, at any alignment and for any size of 64 bits. What a client writes is inside
the block it was given. -/
def buddyCall (heap : BuddyHeap) : BuddyOp → Option BuddyHeap
  | .allocate size =>
    if size < 2 ^ 64 then
      (buddyAllocRealloc heap.mem heap.alloc 0 size).map fun result =>
        { heap with
          mem := result.1
          live := if result.2 = 0 then heap.live else heap.live ++ [(result.2, size)] }
    else none
  | .free ptr => buddyStep heap (.free ptr)
  | .write ptr offset bytes =>
    if heap.live.any (·.1 == ptr) = true ∧ heap.alloc.alignment + offset + bytes.length ≤
        blockSize heap.mem (ptr - heap.alloc.alignment) then
      some { heap with mem := heap.mem.store (ptr + offset) bytes }
    else none

/-- Initialise a heap and perform the calls. -/
def buddyCalls (palloc : BuddyAllocationProc) (mem : Mem) (initialSize alignment : Nat)
    (ops : List BuddyOp) : Option BuddyHeap :=
  (buddyAllocInit palloc mem initialSize alignment).bind fun init =>
    run buddyCall ⟨init.1, init.2, []⟩ ops

/-- **The size requirement is sound** for an alignment and a size: it ends, and in every heap that a run
reaches, the bytes of a request that is not refused lie inside the block that was found for it. -/
structure RequestSound (alignment size : Nat) : Prop where
  terminates : ∀ alloc : BuddyAlloc, alloc.alignment = alignment →
    ∃ actualSize, sizeReq alloc size = some actualSize
  inside : ∀ (palloc : BuddyAllocationProc) (mem : Mem) (initialSize : Nat),
    16 ≤ initialSize → initialSize < 2 ^ 64 → ∀ (ops : List BuddyOp) (heap : BuddyHeap),
      buddyCalls palloc mem initialSize alignment ops = some heap → ∀ (mem' : Mem) (p : Nat),
        buddyAllocRealloc heap.mem heap.alloc 0 size = some (mem', p) → p ≠ 0 →
          p + size ≤ p - alignment + blockSize mem' (p - alignment)

/-! ### Heaps -/

/-- **A live pointer is the alignment behind a used block.** -/
structure BuddyHeap.Placed (heap : BuddyHeap) (m : Nat) (blocks : List Block) : Prop where
  alignment : heap.alloc.alignment = 2 ^ m
  headPos : 0 < heap.alloc.head
  bounded : heap.alloc.tail ≤ 2 ^ 63
  tiles : Tiles heap.mem heap.alloc.head blocks heap.alloc.tail
  nonempty : blocks ≠ []
  live : ∀ p n, (p, n) ∈ heap.live → 2 ^ m ≤ p ∧
    ∃ b, (p - 2 ^ m, b) ∈ placed heap.alloc.head blocks ∧ b.free = false

section Steps

/-- A requirement that an alignment of 16 or more leads to is the size of a block. -/
theorem BuddyHeap.Placed.required (placed : heap.Placed m blocks) (from_four : 4 ≤ m)
    (exponent : m ≤ 63) {actualSize : Nat} (required : sizeReq heap.alloc size = some actualSize) :
    ∃ order, sizeReq heap.alloc size = some (Block.mk order true).size := by
  obtain ⟨k, rfl, from_m⟩ := sizeReq_power placed.alignment exponent required
  obtain ⟨order, power⟩ := two_pow_eq_size (from_four.trans from_m)
  exact ⟨order, power ▸ required⟩

/-- What a call for memory leaves. -/
theorem BuddyHeap.Placed.allocated (placed : heap.Placed m blocks) (from_four : 4 ≤ m)
    (exponent : m ≤ 63) {result : Mem × Nat}
    (ran : buddyAllocRealloc heap.mem heap.alloc 0 size = some result) :
    ∃ order, sizeReq heap.alloc size = some (Block.mk order true).size ∧
      AllocateOutcome heap.alloc order heap.mem blocks result := by
  have asked := ran
  rw [buddyAllocRealloc, if_pos rfl] at asked
  obtain ⟨actualSize, required, -⟩ := Option.bind_eq_some_iff.mp asked
  obtain ⟨order, required⟩ := placed.required from_four exponent required
  obtain ⟨result', ran', outcome⟩ :=
    buddyAllocate_outcome placed.headPos placed.bounded placed.tiles placed.nonempty required
  cases ran.symm.trans ran'
  exact ⟨order, required, outcome⟩

/-- Rearranging free blocks keeps the pointers placed. -/
theorem BuddyHeap.Placed.rearrange (placed : heap.Placed m blocks) {mem' : Mem} {blocks' : List Block}
    (tiles : Tiles mem' heap.alloc.head blocks' heap.alloc.tail)
    (rearranged : Rearranged heap.alloc.head heap.mem blocks mem' blocks') :
    BuddyHeap.Placed { heap with mem := mem' } m blocks' where
  alignment := placed.alignment
  headPos := placed.headPos
  bounded := placed.bounded
  tiles := tiles
  nonempty := rearranged.nonempty placed.nonempty
  live p n member := by
    obtain ⟨low, b, place, used⟩ := placed.live p n member
    exact ⟨low, b, (rearranged.used _ _ used).mpr place, used⟩

theorem BuddyHeap.Placed.take (placed : heap.Placed m blocks) {a order size : Nat}
    (found : (a, ⟨order, true⟩) ∈ Vaudou.placed heap.alloc.head blocks) :
    ∃ blocks', BuddyHeap.Placed { heap with
        mem := setBlockIsFree heap.mem a false
        live := heap.live ++ [(a + heap.alloc.alignment, size)] } m blocks' := by
  obtain ⟨blocks', tiles, total, member⟩ := placed.tiles.flip found false
  refine ⟨blocks', placed.alignment, placed.headPos, placed.bounded, tiles,
    ne_nil_of_total total placed.nonempty, fun p n live => ?_⟩
  rcases List.mem_append.mp live with older | newest
  · obtain ⟨low, b, there, used⟩ := placed.live p n older
    refine ⟨low, b, (member _ _).mpr (Or.inr ⟨?_, there⟩), used⟩
    intro same
    rw [same] at there
    rw [placed_unique there found] at used
    cases used
  · obtain ⟨rfl, rfl⟩ := Prod.mk.inj (List.mem_singleton.mp newest)
    rw [placed.alignment, Nat.add_sub_cancel]
    exact ⟨Nat.le_add_left _ a, ⟨order, false⟩, (member _ _).mpr (Or.inl ⟨rfl, rfl⟩), rfl⟩

theorem BuddyHeap.Placed.allocate (placed : heap.Placed m blocks) (from_four : 4 ≤ m)
    (exponent : m ≤ 63) (called : buddyCall heap (.allocate size) = some heap') :
    ∃ blocks', heap'.Placed m blocks' := by
  obtain ⟨-, made⟩ := Option.ite_none_right_eq_some.mp called
  obtain ⟨result, ran, rfl⟩ := Option.map_eq_some_iff.mp made
  obtain ⟨order, -, outcome⟩ := placed.allocated from_four exponent ran
  cases outcome with
  | null blocks' none tiles rearranged nothing =>
    rw [if_pos none]
    exact ⟨blocks', placed.rearrange tiles rearranged⟩
  | block mem' a blocks' same tiles rearranged found =>
    subst same
    have pos := (placed_inside found).1
    have headPos := placed.headPos
    rw [if_neg (show a + heap.alloc.alignment ≠ 0 by omega)]
    exact (placed.rearrange tiles rearranged).take found

theorem BuddyHeap.Placed.free (placed : heap.Placed m blocks) {ptr : Nat}
    (called : buddyCall heap (.free ptr) = some heap') : ∃ blocks', heap'.Placed m blocks' := by
  obtain ⟨alive, freed⟩ := Option.ite_none_right_eq_some.mp called
  obtain ⟨result, ran, rfl⟩ := Option.map_eq_some_iff.mp freed
  obtain ⟨⟨p, n⟩, live, same⟩ := List.any_eq_true.mp alive
  obtain rfl : p = ptr := by simpa using same
  obtain ⟨low, b, there, used⟩ := placed.live p n live
  have pos := Nat.two_pow_pos m
  rw [buddyAllocRealloc, if_neg (by omega), if_pos rfl] at ran
  obtain ⟨-, ran⟩ := Option.ite_none_right_eq_some.mp ran
  cases ran
  rw [placed.alignment]
  obtain ⟨blocks', tiles, total, member⟩ := placed.tiles.flip there true
  refine ⟨blocks', placed.alignment, placed.headPos, placed.bounded, tiles,
    ne_nil_of_total total placed.nonempty, fun q n other => ?_⟩
  obtain ⟨other, different⟩ := List.mem_filter.mp other
  obtain ⟨lowQ, c, thereC, usedC⟩ := placed.live q n other
  have : q ≠ p := by simpa using different
  exact ⟨lowQ, c, (member _ _).mpr (Or.inr ⟨by omega, thereC⟩), usedC⟩

theorem BuddyHeap.Placed.write (placed : heap.Placed m blocks) (from_four : 4 ≤ m) {ptr offset : Nat}
    {bytes : List UInt8} (called : buddyCall heap (.write ptr offset bytes) = some heap') :
    ∃ blocks', heap'.Placed m blocks' := by
  obtain ⟨⟨alive, fits⟩, wrote⟩ := Option.ite_none_right_eq_some.mp called
  cases wrote
  obtain ⟨⟨p, n⟩, live, same⟩ := List.any_eq_true.mp alive
  obtain rfl : p = ptr := by simpa using same
  obtain ⟨low, b, there, -⟩ := placed.live p n live
  have header : 2 ^ 4 ≤ 2 ^ m := two_pow_le_iff.mpr from_four
  rw [placed.alignment, (placed.tiles.header _ _ there).size] at fits
  have changed := store_changedWithin heap.mem (p + offset) bytes
  refine ⟨blocks, placed.alignment, placed.headPos, placed.bounded, ⟨fun a c thereC => ?_,
    placed.tiles.ends⟩, placed.nonempty, placed.live⟩
  have wideC := c.size_ge
  refine (placed.tiles.header a c thereC).congr (changed.same ?_)
  rcases placed_apart thereC there with ⟨rfl, -⟩ | before | after
  · exact Or.inl (by omega)
  · exact Or.inl (by omega)
  · exact Or.inr (by omega)

/-- **One call** keeps the live pointers placed. -/
theorem BuddyHeap.Placed.call (placed : heap.Placed m blocks) (from_four : 4 ≤ m) (exponent : m ≤ 63)
    {op : BuddyOp} (called : buddyCall heap op = some heap') : ∃ blocks', heap'.Placed m blocks' := by
  cases op with
  | allocate size => exact placed.allocate from_four exponent called
  | free ptr => exact placed.free called
  | write ptr offset bytes => exact placed.write from_four called

end Steps

/-! ### Runs -/

section Runs

variable {palloc : BuddyAllocationProc} {mem mem' : Mem} {initialSize p : Nat} {ops : List BuddyOp}

/-- A fresh heap is one free block. -/
theorem buddyAllocInit_placed {alloc : BuddyAlloc} (from_four : 4 ≤ m) (large : 16 ≤ initialSize)
    (word : initialSize < 2 ^ 64)
    (made : buddyAllocInit palloc mem initialSize (2 ^ m) = some (mem', alloc)) :
    ∃ order, (Block.mk order true).size = roundUpToNextPowerOf2 initialSize ∧
      BuddyHeap.Placed ⟨mem', alloc, []⟩ m [⟨order, true⟩] := by
  obtain ⟨order, size, headPos, bounded, tiles⟩ := buddyAllocInit_spec large word made
  have alignment : alloc.alignment = 2 ^ m := by
    obtain ⟨memory, -, same⟩ := Option.map_eq_some_iff.mp made
    obtain ⟨-, rfl⟩ := Prod.mk.inj same
    have header : 2 ^ 4 ≤ 2 ^ m := two_pow_le_iff.mpr from_four
    show (if roundUpToNextPowerOf2 (2 ^ m) < 16 then 16 else roundUpToNextPowerOf2 (2 ^ m)) = _
    rw [roundUpToNextPowerOf2_two_pow]
    exact if_neg (Nat.not_lt.mpr header)
  exact ⟨order, size, alignment, headPos, bounded, tiles, List.cons_ne_nil _ _,
    fun p n member => absurd member List.not_mem_nil⟩

/-- **Every heap that a run reaches has its live pointers placed.** -/
theorem buddyCalls_placed (from_four : 4 ≤ m) (exponent : m ≤ 63) (large : 16 ≤ initialSize)
    (word : initialSize < 2 ^ 64) (ran : buddyCalls palloc mem initialSize (2 ^ m) ops = some heap) :
    ∃ blocks, heap.Placed m blocks := by
  obtain ⟨⟨fresh, alloc⟩, made, ran⟩ := Option.bind_eq_some_iff.mp ran
  obtain ⟨order, -, start⟩ := buddyAllocInit_placed from_four large word made
  refine run_invariant (I := fun heap => ∃ blocks, heap.Placed m blocks)
    (fun heap op heap' placed called => ?_) ran ⟨_, start⟩
  obtain ⟨blocks, placed⟩ := placed
  exact placed.call from_four exponent called

/-- **The block of a request** is as large as the size requirement, and starts the alignment in front of
the pointer. -/
theorem BuddyHeap.Placed.granted (placed : heap.Placed m blocks) (from_four : 4 ≤ m)
    (exponent : m ≤ 63) (ran : buddyAllocRealloc heap.mem heap.alloc 0 size = some (mem', p))
    (nonzero : p ≠ 0) :
    sizeReq heap.alloc size = some (blockSize mem' (p - 2 ^ m)) ∧ 2 ^ m ≤ p ∧
      blockSize mem' (p - 2 ^ m) < 2 ^ 63 := by
  obtain ⟨order, required, outcome⟩ := placed.allocated from_four exponent ran
  cases outcome with
  | null blocks' none tiles rearranged nothing => exact absurd none nonzero
  | block mem'' a blocks' same tiles rearranged found =>
    obtain ⟨rfl, rfl⟩ := Prod.mk.inj same
    have header := (tiles.header _ _ found).size
    have place := tiles.block_le found
    have headPos := placed.headPos
    have bounded := placed.bounded
    rw [placed.alignment, Nat.add_sub_cancel, blockSize_setBlockIsFree, header]
    exact ⟨required, Nat.le_add_left _ a, by omega⟩

/-- **A fresh heap of exactly the size requirement** does not refuse the request. -/
theorem fresh_grants (from_four : 4 ≤ m) (from_m : m ≤ k) (small : k ≤ 62)
    (required : ∀ alloc : BuddyAlloc, alloc.alignment = 2 ^ m → sizeReq alloc size = some (2 ^ k)) :
    ∃ heap mem' p, buddyCalls pagePalloc (fun _ => 0) (2 ^ k) (2 ^ m) [] = some heap ∧
      buddyAllocRealloc heap.mem heap.alloc 0 size = some (mem', p) ∧ p ≠ 0 := by
  have pos := Nat.two_pow_pos k
  have fits : 2 ^ k ≤ 2 ^ 62 := two_pow_le_iff.mpr small
  have header : 2 ^ 4 ≤ 2 ^ k := two_pow_le_iff.mpr (from_four.trans from_m)
  obtain ⟨⟨mem, alloc⟩, made⟩ : ∃ init, buddyAllocInit pagePalloc (fun _ => 0) (2 ^ k) (2 ^ m) =
      some init := by
    have room : 0 + 0 + 1 + 2 ^ k ≤ 2 ^ 63 := by omega
    rw [buddyAllocInit, roundUpToNextPowerOf2_two_pow k]
    show ∃ init, (if 2 ^ k = 0 then none else if 0 + 0 + 1 + 2 ^ k ≤ 2 ^ 63 then _ else _).map _ =
      some init
    rw [if_neg pos.ne', if_pos room]
    exact ⟨_, rfl⟩
  obtain ⟨order, whole, placed⟩ :=
    buddyAllocInit_placed from_four (show 16 ≤ 2 ^ k by omega) (by omega) made
  rw [roundUpToNextPowerOf2_two_pow] at whole
  have asked : sizeReq alloc size = some (Block.mk order true).size := by
    rw [whole]
    exact required alloc placed.alignment
  obtain ⟨⟨mem', p⟩, ran, outcome⟩ :=
    buddyAllocate_outcome placed.headPos placed.bounded placed.tiles placed.nonempty asked
  refine ⟨⟨mem, alloc, []⟩, mem', p, by rw [buddyCalls, made, Option.bind_some, run_nil], ran, ?_⟩
  cases outcome with
  | null blocks' none tiles rearranged nothing =>
    have refused := nothing ⟨order, true⟩ List.mem_cons_self rfl
    exact absurd refused (Nat.lt_irrefl _)
  | block mem'' a blocks' same tiles rearranged found =>
    obtain ⟨rfl, rfl⟩ := Prod.mk.inj same
    have place := tiles.block_le found
    exact (Nat.add_pos_left (placed.headPos.trans_le place.1) _).ne'

/-- A sound request gets a block with room for the alignment. -/
theorem RequestSound.room (sound : RequestSound (2 ^ m) size) (from_four : 4 ≤ m) (exponent : m ≤ 63)
    (from_m : m ≤ k) (small : k ≤ 62)
    (required : ∀ alloc : BuddyAlloc, alloc.alignment = 2 ^ m → sizeReq alloc size = some (2 ^ k)) :
    size + 2 ^ m ≤ 2 ^ k := by
  have fits : 2 ^ k ≤ 2 ^ 62 := two_pow_le_iff.mpr small
  have header : 2 ^ 4 ≤ 2 ^ k := two_pow_le_iff.mpr (from_four.trans from_m)
  have large : 16 ≤ 2 ^ k := header
  have word : 2 ^ k < 2 ^ 64 := by omega
  obtain ⟨heap, mem', p, made, ran, nonzero⟩ := fresh_grants from_four from_m small required
  have inside := sound.inside pagePalloc (fun _ => 0) (2 ^ k) large word [] heap made mem' p ran nonzero
  obtain ⟨blocks, placed⟩ := buddyCalls_placed from_four exponent large word made
  obtain ⟨asked, low, -⟩ := placed.granted from_four exponent ran nonzero
  have whole : blockSize mem' (p - 2 ^ m) = 2 ^ k :=
    Option.some.inj (asked.symm.trans (required _ placed.alignment))
  rw [whole] at inside
  omega

/-- A sound request has a sum with the header of at most `2 ^ 63`, unless that is the alignment. -/
theorem RequestSound.bounded (sound : RequestSound (2 ^ m) size) (from_four : 4 ≤ m) (exponent : m ≤ 63)
    (word : size < 2 ^ 64) : m = 63 ∨ size + 16 ≤ 2 ^ 63 := by
  by_contra beyond
  obtain ⟨below, large⟩ := not_or.mp beyond
  have bare : ∀ alloc : BuddyAlloc, alloc.alignment = 2 ^ m → sizeReq alloc size = some (2 ^ m) := by
    intro alloc alignment
    obtain ⟨actualSize, ends⟩ := sound.terminates alloc alignment
    rcases sizeReq_beyond alignment from_four (by omega) (Nat.not_le.mp large) word with stuck | bare
    · rw [stuck] at ends
      cases ends
    · exact bare
  have room := sound.room from_four exponent (Nat.le_refl m) (by omega) bare
  have power := Nat.two_pow_pos m
  omega

/-- Every block that a sound request fits in with its header has room for the alignment. -/
theorem RequestSound.roomy (sound : RequestSound (2 ^ m) size) (from_four : 4 ≤ m) (exponent : m ≤ 63)
    {j : Nat} (from_m : m ≤ j) (small : j ≤ 62) (holds : size + 16 ≤ 2 ^ j) : size + 2 ^ m ≤ 2 ^ j := by
  have top : 2 ^ j ≤ 2 ^ 62 := two_pow_le_iff.mpr small
  obtain ⟨k, required, from_m', -, least⟩ :=
    sizeReq_fits (show (BuddyAlloc.mk 0 0 (2 ^ m)).alignment = 2 ^ m from rfl) exponent
      (show size + 16 ≤ 2 ^ 63 by omega)
  have within : k ≤ j := (least j from_m).mp holds
  have room := sound.room from_four exponent from_m' (within.trans small) fun alloc alignment =>
    (sizeReq_congr alignment).trans required
  exact room.trans (two_pow_le_iff.mpr within)

/-- The size requirement ends for such a sum. -/
theorem sizeReq_ends {alloc : BuddyAlloc} (alignment : alloc.alignment = 2 ^ m) (exponent : m ≤ 63)
    (bounded : m = 63 ∨ size + 16 ≤ 2 ^ 63) : ∃ actualSize, sizeReq alloc size = some actualSize := by
  rcases bounded with rfl | small
  · exact ⟨_, sizeReq_top alignment⟩
  · obtain ⟨k, required, -⟩ := sizeReq_fits alignment exponent small
    exact ⟨_, required⟩

/-- The bytes of a request lie inside its block, if the block has room for the alignment. -/
theorem BuddyHeap.Placed.inside (placed : heap.Placed m blocks) (from_four : 4 ≤ m) (exponent : m ≤ 63)
    (bounded : m = 63 ∨ size + 16 ≤ 2 ^ 63)
    (room : ∀ j, m ≤ j → j ≤ 62 → size + 16 ≤ 2 ^ j → size + 2 ^ m ≤ 2 ^ j)
    (ran : buddyAllocRealloc heap.mem heap.alloc 0 size = some (mem', p)) (nonzero : p ≠ 0) :
    p + size ≤ p - 2 ^ m + blockSize mem' (p - 2 ^ m) := by
  obtain ⟨required, low, below⟩ := placed.granted from_four exponent ran nonzero
  rcases bounded with rfl | small
  -- a requirement of the whole range is never granted
  · rw [sizeReq_top placed.alignment] at required
    exact absurd (Option.some.inj required) below.ne'
  · obtain ⟨k, required', from_m, -, least⟩ := sizeReq_fits placed.alignment exponent small
    have whole := Option.some.inj (required.symm.trans required')
    rw [whole] at below ⊢
    have fits := room k from_m (Nat.le_of_lt_succ (two_pow_lt_iff.mp below))
      ((least k from_m).mpr (Nat.le_refl k))
    omega

/-- **Which requests are sound.** The size requirement ends and the bytes lie inside the block if and only
if the sum with the header is at most `2 ^ 63`, or the alignment is that, and every power of two from the
alignment on that holds the request and the header also holds the request and the alignment. A block of
`2 ^ 63` bytes does not exist. -/
theorem requestSound_iff (from_four : 4 ≤ m) (exponent : m < 64) (word : size < 2 ^ 64) :
    RequestSound (2 ^ m) size ↔ (m = 63 ∨ size + 16 ≤ 2 ^ 63) ∧
      ∀ j, m ≤ j → j ≤ 62 → size + 16 ≤ 2 ^ j → size + 2 ^ m ≤ 2 ^ j := by
  have exponent := Nat.le_of_lt_succ exponent
  constructor
  · intro sound
    exact ⟨sound.bounded from_four exponent word,
      fun j from_m small holds => sound.roomy from_four exponent from_m small holds⟩
  · rintro ⟨bounded, room⟩
    refine ⟨fun alloc alignment => sizeReq_ends alignment exponent bounded,
      fun palloc mem initialSize large word' ops heap made mem' p ran nonzero => ?_⟩
    obtain ⟨blocks, placed⟩ := buddyCalls_placed from_four exponent large word' made
    exact placed.inside from_four exponent bounded room ran nonzero

/-- 150 bytes at an alignment of 64 take a block of 256. -/
theorem requestSound_iff_fits :
    4 ≤ 6 ∧ 6 < 64 ∧ 150 < 2 ^ 64 ∧ RequestSound (2 ^ 6) 150 := by
  refine ⟨by decide, by decide, by decide,
    (requestSound_iff (by decide) (by decide) (by decide)).mpr ⟨Or.inr (by decide), ?_⟩⟩
  intro j _ _ holds
  have beyond : 7 < j := two_pow_lt_iff.mp (show 2 ^ 7 < 2 ^ j by omega)
  have : 2 ^ 8 ≤ 2 ^ j := two_pow_le_iff.mpr beyond
  omega

/-- **The payload starts behind the block**: a heap of 64 bytes at 1, an alignment of 64, and a request
for 40 bytes, which gets the pointer 65. -/
theorem request_behind_block :
    ¬ ∀ m, 4 ≤ m → m < 64 → ∀ size, size < 2 ^ 64 → RequestSound (2 ^ m) size := by
  have reaches : ((buddyCalls pagePalloc (fun _ => 0) 64 64 []).any fun heap =>
      (buddyAllocRealloc heap.mem heap.alloc 0 40).any fun result =>
        decide (result.2 = 65 ∧ blockSize result.1 1 = 64)) = true := by
    decide +kernel
  intro claimed
  obtain ⟨heap, made, facts⟩ := (Option.any_eq_true _ _).mp reaches
  obtain ⟨⟨mem', p⟩, ran, facts⟩ := (Option.any_eq_true _ _).mp facts
  obtain ⟨rfl, whole⟩ : p = 65 ∧ blockSize mem' 1 = 64 := of_decide_eq_true facts
  have inside := (claimed 6 (by decide) (by decide) 40 (by decide)).inside pagePalloc (fun _ => 0) 64
    (by decide) (by decide) [] heap made mem' 65 ran (by decide)
  change 65 + 40 ≤ 1 + blockSize mem' 1 at inside
  omega

end Runs

end Vaudou
