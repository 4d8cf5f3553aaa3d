/-
**Runs of a buddy heap.**

The clients of a heap with effective alignment 16 allocate blocks of up to `2 ^ 62` bytes, free
pointers that are live at that moment, and write into live payloads, in any order.
`BuddyHeap.Sound` is the invariant: the used blocks of the tiling are those of the live allocations.

* `buddyRun_tiled` — the tiling, the disjointness of the payloads and what a call leaves alone, in
  every state that a run reaches.
-/

import Mathlib.Data.List.Nodup
import Vaudou.Buddy.Heap
import Vaudou.Foundation.Run

namespace Vaudou

open Vaudou.Memory Vaudou.Run

/-- A heap, its memory, and the live allocations with the sizes that were asked for. -/
structure BuddyHeap where
  mem : Mem
  alloc : BuddyAlloc
  live : List (Nat × Nat)

/-- What a client can do. -/
inductive BuddyOp where
  | allocate (size : Nat)
  | free (ptr : Nat)
  | write (ptr offset : Nat) (bytes : List UInt8)

/-- The live allocation the operation is about. -/
def BuddyOp.target : BuddyOp → Option Nat
  | .allocate _ => none
  | .free ptr => some ptr
  | .write ptr _ _ => some ptr

/-- One operation of a client. -/
def buddyStep (heap : BuddyHeap) : BuddyOp → Option BuddyHeap
  | .allocate size =>
    if size ≤ 2 ^ 62 then
      (buddyAllocRealloc heap.mem heap.alloc 0 size).map fun result =>
        { heap with
          mem := result.1
          live := if result.2 = 0 then heap.live else heap.live ++ [(result.2, size)] }
    else none
  | .free ptr =>
    if heap.live.any (·.1 == ptr) then
      (buddyAllocRealloc heap.mem heap.alloc ptr 0).map fun result =>
        { heap with mem := result.1, live := heap.live.filter (·.1 != ptr) }
    else none
  | .write ptr offset bytes =>
    if heap.live.any (fun entry => entry.1 == ptr && decide (offset + bytes.length ≤ entry.2)) then
      some { heap with mem := heap.mem.store (ptr + offset) bytes }
    else none

/-- Initialise a heap and perform the operations. -/
def buddyRun (palloc : BuddyAllocationProc) (mem : Mem) (initialSize alignment : Nat)
    (ops : List BuddyOp) : Option BuddyHeap :=
  (buddyAllocInit palloc mem initialSize alignment).bind fun init =>
    run buddyStep ⟨init.1, init.2, []⟩ ops

/-- **The used blocks of the tiling are those of the live allocations.** -/
structure BuddyHeap.Sound (heap : BuddyHeap) (blocks : List Block) : Prop where
  aligned : heap.alloc.alignment = 16
  headPos : 0 < heap.alloc.head
  bounded : heap.alloc.tail ≤ 2 ^ 63
  tiles : Tiles heap.mem heap.alloc.head blocks heap.alloc.tail
  nonempty : blocks ≠ []
  live : ∀ p n, (p, n) ∈ heap.live → ∃ b, (p - 16, b) ∈ placed heap.alloc.head blocks ∧
    b.free = false ∧ 16 ≤ p ∧ p + n ≤ p - 16 + b.size
  used : ∀ a b, (a, b) ∈ placed heap.alloc.head blocks → b.free = false →
    ∃ n, (a + 16, n) ∈ heap.live
  distinct : (heap.live.map Prod.fst).Nodup

variable {heap heap' : BuddyHeap} {blocks : List Block}

/-- Two placed blocks at one address are the same block. -/
theorem placed_unique {p a : Nat} {b c : Block} (first : (a, b) ∈ placed p blocks)
    (second : (a, c) ∈ placed p blocks) : b = c := by
  have := b.size_ge
  have := c.size_ge
  rcases placed_apart first second with ⟨-, same⟩ | before | after
  · exact same
  · omega
  · omega

/-- What a step does to the memory: the header and the payload of every live allocation but the
target stay, and so does everything outside the heap. -/
structure KeepsOthers (heap : BuddyHeap) (op : BuddyOp) (heap' : BuddyHeap) : Prop where
  live : ∀ p n, (p, n) ∈ heap.live → op.target ≠ some p →
    Same heap.mem heap'.mem (p - 16) (16 + n)
  outside : ∀ x, x < heap.alloc.head ∨ heap.alloc.tail ≤ x → heap'.mem x = heap.mem x

/-- What a step keeps. -/
structure StepKeeps (heap : BuddyHeap) (blocks : List Block) (op : BuddyOp) (heap' : BuddyHeap)
    (blocks' : List Block) : Prop where
  sound : heap'.Sound blocks'
  alloc : heap'.alloc = heap.alloc
  total : total blocks' = total blocks
  others : KeepsOthers heap op heap'

/-! ### Steps -/

section Steps

/-- Rearranging free blocks keeps the heap sound. -/
theorem BuddyHeap.Sound.rearrange (sound : heap.Sound blocks) {mem' : Mem} {blocks' : List Block}
    (tiles : Tiles mem' heap.alloc.head blocks' heap.alloc.tail)
    (rearranged : Rearranged heap.alloc.head heap.mem blocks mem' blocks') :
    BuddyHeap.Sound { heap with mem := mem' } blocks' where
  aligned := sound.aligned
  headPos := sound.headPos
  bounded := sound.bounded
  tiles := tiles
  nonempty := rearranged.nonempty sound.nonempty
  live p n member := by
    obtain ⟨b, place, used, low, high⟩ := sound.live p n member
    exact ⟨b, (rearranged.used _ _ used).mpr place, used, low, high⟩
  used a b place used := sound.used a b ((rearranged.used a b used).mp place) used
  distinct := sound.distinct

theorem BuddyHeap.Sound.rearrange_others (sound : heap.Sound blocks) {mem' : Mem}
    {blocks' : List Block} (op : BuddyOp)
    (rearranged : Rearranged heap.alloc.head heap.mem blocks mem' blocks') :
    KeepsOthers heap op { heap with mem := mem' } where
  live p n member _ := by
    obtain ⟨b, place, used, low, high⟩ := sound.live p n member
    exact (rearranged.same _ _ used place).part (Nat.le_refl _) (by omega)
  outside x beyond := by
    refine rearranged.outside x ?_
    rw [sound.tiles.ends]
    exact beyond

/-- Marking a free block used, for a new allocation. -/
theorem BuddyHeap.Sound.take (sound : heap.Sound blocks) {a k size : Nat}
    (found : (a, ⟨k, true⟩) ∈ placed heap.alloc.head blocks)
    (room : size + 16 ≤ (Block.mk k true).size) :
    ∃ blocks', StepKeeps heap blocks (.allocate size)
      { heap with
        mem := setBlockIsFree heap.mem a false
        live := heap.live ++ [(a + 16, size)] } blocks' := by
  obtain ⟨blocks', tiles, total, member⟩ := sound.tiles.flip found false
  have place := sound.tiles.block_le found
  have wide := (Block.mk k true).size_ge
  have other : ∀ {p : Nat} {b : Block}, (p, b) ∈ placed heap.alloc.head blocks → b.free = false →
      p ≠ a := by
    rintro p b there used rfl
    rw [placed_unique there found] at used
    cases used
  have apart : ∀ {p : Nat} {b : Block}, (p, b) ∈ placed heap.alloc.head blocks → b.free = false →
      p + b.size ≤ a ∨ a + 16 ≤ p := by
    intro p b there used
    rcases placed_apart there found with ⟨same, -⟩ | before | after
    · exact absurd same (other there used)
    · exact Or.inl before
    · exact Or.inr (by omega)
  refine ⟨blocks', ⟨sound.aligned, sound.headPos, sound.bounded, tiles, ?_, ?_, ?_, ?_⟩, rfl, total,
    fun p n live _ => ?_, fun x beyond => ?_⟩
  · exact ne_nil_of_total total sound.nonempty
  · intro p n live
    rcases List.mem_append.mp live with older | newest
    · obtain ⟨b, there, used, low, high⟩ := sound.live p n older
      exact ⟨b, (member _ _).mpr (Or.inr ⟨other there used, there⟩), used, low, high⟩
    · obtain ⟨rfl, rfl⟩ := Prod.mk.inj (List.mem_singleton.mp newest)
      refine ⟨⟨k, false⟩, (member _ _).mpr (Or.inl ⟨Nat.add_sub_cancel a 16, rfl⟩), rfl,
        Nat.le_add_left 16 a, ?_⟩
      have same : (Block.mk k false).size = (Block.mk k true).size := rfl
      omega
  · intro a' b' there used
    rcases (member a' b').mp there with ⟨rfl, -⟩ | ⟨-, there⟩
    · exact ⟨size, List.mem_append_right _ (List.mem_singleton_self _)⟩
    · obtain ⟨n, live⟩ := sound.used a' b' there used
      exact ⟨n, List.mem_append_left _ live⟩
  · show ((heap.live ++ [(a + 16, size)]).map Prod.fst).Nodup
    rw [List.map_append]
    refine List.Nodup.append sound.distinct (List.nodup_singleton _) ?_
    rw [List.map_singleton, List.disjoint_singleton]
    intro live
    obtain ⟨⟨p, n⟩, there, same⟩ := List.mem_map.mp live
    obtain ⟨b, place, used, low, -⟩ := sound.live p n there
    exact other place used (by change p = a + 16 at same; omega)
  · obtain ⟨b, there, used, low, high⟩ := sound.live p n live
    have changed := setBlockIsFree_changedWithin heap.mem a false
    have := apart there used
    exact changed.same (by omega)
  · exact setBlockIsFree_changedWithin _ _ false x (by omega)

theorem allocate_keeps (sound : heap.Sound blocks) {size : Nat}
    (stepped : buddyStep heap (.allocate size) = some heap') :
    ∃ blocks', StepKeeps heap blocks (.allocate size) heap' blocks' := by
  obtain ⟨small, made⟩ := Option.ite_none_right_eq_some.mp stepped
  obtain ⟨result, ran, rfl⟩ := Option.map_eq_some_iff.mp made
  obtain ⟨k, result', -, room, ran', outcome⟩ := buddyAllocate_spec sound.aligned sound.headPos
    sound.bounded sound.tiles sound.nonempty small
  cases ran.symm.trans ran'
  cases outcome with
  | null blocks' none tiles rearranged nothing =>
    rw [if_pos none]
    exact ⟨blocks', sound.rearrange tiles rearranged, rfl, rearranged.total,
      sound.rearrange_others _ rearranged⟩
  | block mem' a blocks' same tiles rearranged found =>
    subst same
    have others := sound.rearrange_others (.allocate size) rearranged
    obtain ⟨blocks'', taken⟩ := (sound.rearrange tiles rearranged).take found room
    rw [if_neg (Nat.succ_ne_zero _)]
    refine ⟨blocks'', taken.sound, rfl, taken.total.trans rearranged.total, ?_, ?_⟩
    · intro p n live different
      exact (others.live p n live different).trans (taken.others.live p n live different)
    · intro x beyond
      exact (taken.others.outside x beyond).trans (others.outside x beyond)

/-- A free sets the flag of the used block in front of the pointer. -/
theorem free_flips (sound : heap.Sound blocks) {ptr : Nat}
    (stepped : buddyStep heap (.free ptr) = some heap') :
    ∃ b n, (ptr, n) ∈ heap.live ∧ (ptr - 16, b) ∈ placed heap.alloc.head blocks ∧ b.free = false ∧
      16 ≤ ptr ∧ ptr + n ≤ ptr - 16 + b.size ∧
      heap' = { heap with
        mem := setBlockIsFree heap.mem (ptr - 16) true
        live := heap.live.filter (·.1 != ptr) } := by
  obtain ⟨alive, freed⟩ := Option.ite_none_right_eq_some.mp stepped
  obtain ⟨result, ran, rfl⟩ := Option.map_eq_some_iff.mp freed
  obtain ⟨⟨p, n⟩, live, same⟩ := List.any_eq_true.mp alive
  obtain rfl : p = ptr := by simpa using same
  obtain ⟨b, there, used, low, high⟩ := sound.live p n live
  have place := sound.tiles.block_le there
  rw [buddyAllocRealloc, if_neg (by omega), if_pos rfl, if_pos (by omega), sound.aligned] at ran
  cases ran
  exact ⟨b, n, live, there, used, low, high, rfl⟩

theorem free_keeps (sound : heap.Sound blocks) {ptr : Nat}
    (stepped : buddyStep heap (.free ptr) = some heap') :
    ∃ blocks', StepKeeps heap blocks (.free ptr) heap' blocks' := by
  obtain ⟨b, n, live, there, used, low, high, rfl⟩ := free_flips sound stepped
  have place := sound.tiles.block_le there
  obtain ⟨blocks', tiles, total, member⟩ := sound.tiles.flip there true
  have wide := b.size_ge
  refine ⟨blocks', ⟨sound.aligned, sound.headPos, sound.bounded, tiles, ?_, ?_, ?_, ?_⟩, rfl, total,
    fun q m other different => ?_, fun x beyond => ?_⟩
  · exact ne_nil_of_total total sound.nonempty
  · intro q m other
    obtain ⟨other, different⟩ := List.mem_filter.mp other
    obtain ⟨c, thereC, usedC, lowC, highC⟩ := sound.live q m other
    refine ⟨c, (member _ _).mpr (Or.inr ⟨?_, thereC⟩), usedC, lowC, highC⟩
    have : q ≠ ptr := by simpa using different
    omega
  · intro a' b' there' used'
    rcases (member a' b').mp there' with ⟨-, rfl⟩ | ⟨different, there'⟩
    · cases used'
    · obtain ⟨m, other⟩ := sound.used a' b' there' used'
      refine ⟨m, List.mem_filter.mpr ⟨other, ?_⟩⟩
      have : a' + 16 ≠ ptr := by omega
      simpa using this
  · exact sound.distinct.sublist (List.filter_sublist.map _)
  · obtain ⟨c, thereC, usedC, lowC, highC⟩ := sound.live q m other
    have : q ≠ ptr := fun same => different (congrArg some same.symm)
    have changed := setBlockIsFree_changedWithin heap.mem (ptr - 16) true
    rcases placed_apart thereC there with ⟨same, -⟩ | before | after
    · omega
    · exact changed.same (Or.inl (by omega))
    · exact changed.same (Or.inr (by omega))
  · exact setBlockIsFree_changedWithin _ _ true x (by omega)

/-- A write goes to the payload of a used block. -/
theorem write_inside (sound : heap.Sound blocks) {ptr offset : Nat} {bytes : List UInt8}
    (stepped : buddyStep heap (.write ptr offset bytes) = some heap') :
    ∃ b n, (ptr, n) ∈ heap.live ∧ (ptr - 16, b) ∈ placed heap.alloc.head blocks ∧ b.free = false ∧
      16 ≤ ptr ∧ ptr + n ≤ ptr - 16 + b.size ∧ offset + bytes.length ≤ n ∧
      heap' = { heap with mem := heap.mem.store (ptr + offset) bytes } := by
  obtain ⟨alive, wrote⟩ := Option.ite_none_right_eq_some.mp stepped
  cases wrote
  obtain ⟨⟨p, n⟩, live, fits⟩ := List.any_eq_true.mp alive
  obtain ⟨rfl, inside⟩ : p = ptr ∧ offset + bytes.length ≤ n := by simpa using fits
  obtain ⟨b, there, used, low, high⟩ := sound.live p n live
  exact ⟨b, n, live, there, used, low, high, inside, rfl⟩

/-- A write leaves the tiling as it is. -/
theorem write_tiles (sound : heap.Sound blocks) {ptr offset : Nat} {bytes : List UInt8}
    (stepped : buddyStep heap (.write ptr offset bytes) = some heap') :
    Tiles heap'.mem heap.alloc.head blocks heap.alloc.tail := by
  obtain ⟨b, n, live, there, used, low, high, fits, rfl⟩ := write_inside sound stepped
  have changed := store_changedWithin heap.mem (ptr + offset) bytes
  refine ⟨fun a c thereC => ?_, sound.tiles.ends⟩
  have wideC := c.size_ge
  refine (sound.tiles.header a c thereC).congr (changed.same ?_)
  rcases placed_apart thereC there with ⟨rfl, -⟩ | before | after
  · exact Or.inl (by omega)
  · exact Or.inl (by omega)
  · exact Or.inr (by omega)

theorem write_keeps (sound : heap.Sound blocks) {ptr offset : Nat} {bytes : List UInt8}
    (stepped : buddyStep heap (.write ptr offset bytes) = some heap') :
    ∃ blocks', StepKeeps heap blocks (.write ptr offset bytes) heap' blocks' := by
  have tiles := write_tiles sound stepped
  obtain ⟨b, n, live, there, used, low, high, fits, rfl⟩ := write_inside sound stepped
  have place := sound.tiles.block_le there
  have changed := store_changedWithin heap.mem (ptr + offset) bytes
  refine ⟨blocks, ⟨sound.aligned, sound.headPos, sound.bounded, tiles, sound.nonempty, sound.live,
    sound.used, sound.distinct⟩, rfl, rfl, fun q m other different => ?_, fun x beyond => ?_⟩
  · obtain ⟨c, thereC, usedC, lowC, highC⟩ := sound.live q m other
    have : q ≠ ptr := fun same => different (congrArg some same.symm)
    rcases placed_apart thereC there with ⟨same, -⟩ | before | after
    · omega
    · exact changed.same (Or.inl (by omega))
    · exact changed.same (Or.inr (by omega))
  · exact changed x (by omega)

/-- **One operation** keeps the heap sound and the other allocations as they are. -/
theorem buddyStep_keeps (sound : heap.Sound blocks) {op : BuddyOp}
    (stepped : buddyStep heap op = some heap') :
    ∃ blocks', StepKeeps heap blocks op heap' blocks' := by
  cases op with
  | allocate size => exact allocate_keeps sound stepped
  | free ptr => exact free_keeps sound stepped
  | write ptr offset bytes => exact write_keeps sound stepped

/-- Allocations and frees of live pointers are defined. -/
theorem allocate_defined (sound : heap.Sound blocks) {size : Nat} (small : size ≤ 2 ^ 62) :
    ∃ heap', buddyStep heap (.allocate size) = some heap' := by
  obtain ⟨k, result, -, -, ran, -⟩ := buddyAllocate_spec sound.aligned sound.headPos sound.bounded
    sound.tiles sound.nonempty small
  rw [buddyStep, if_pos small, ran]
  exact ⟨_, rfl⟩

theorem free_defined (sound : heap.Sound blocks) {p n : Nat} (live : (p, n) ∈ heap.live) :
    ∃ heap', buddyStep heap (.free p) = some heap' := by
  obtain ⟨b, there, used, low, high⟩ := sound.live p n live
  have place := sound.tiles.block_le there
  rw [buddyStep, if_pos (List.any_eq_true.mpr ⟨(p, n), live, by simp⟩), buddyAllocRealloc,
    if_neg (by omega), if_pos rfl, if_pos (by omega)]
  exact ⟨_, rfl⟩

end Steps

/-! ### Runs -/

section Runs

variable {palloc : BuddyAllocationProc} {mem : Mem} {initialSize alignment : Nat}
  {ops : List BuddyOp}

/-- The allocator record never changes. -/
theorem buddyStep_alloc {op : BuddyOp} (stepped : buddyStep heap op = some heap') :
    heap'.alloc = heap.alloc := by
  cases op with
  | allocate size =>
    obtain ⟨-, made⟩ := Option.ite_none_right_eq_some.mp stepped
    obtain ⟨result, -, rfl⟩ := Option.map_eq_some_iff.mp made
    rfl
  | free ptr =>
    obtain ⟨-, freed⟩ := Option.ite_none_right_eq_some.mp stepped
    obtain ⟨result, -, rfl⟩ := Option.map_eq_some_iff.mp freed
    rfl
  | write ptr offset bytes =>
    obtain ⟨-, wrote⟩ := Option.ite_none_right_eq_some.mp stepped
    cases wrote
    rfl

/-- **Every heap that a run reaches is sound**, and its tiling covers the rounded initial size. -/
theorem buddyRun_sound (large : 16 ≤ initialSize) (word : initialSize < 2 ^ 64)
    (ran : buddyRun palloc mem initialSize alignment ops = some heap)
    (aligned : heap.alloc.alignment = 16) :
    ∃ blocks, heap.Sound blocks ∧ total blocks = roundUpToNextPowerOf2 initialSize := by
  obtain ⟨⟨mem', alloc⟩, made, ran⟩ := Option.bind_eq_some_iff.mp ran
  obtain ⟨order, size, headPos, bounded, tiles⟩ := buddyAllocInit_spec large word made
  have same : heap.alloc = alloc :=
    run_invariant (fun _ _ _ same stepped => (buddyStep_alloc stepped).trans same) ran rfl
  rw [same] at aligned
  have start : BuddyHeap.Sound ⟨mem', alloc, []⟩ [⟨order, true⟩] := by
    refine ⟨aligned, headPos, bounded, tiles, List.cons_ne_nil _ _, fun p n member => ?_,
      fun a b member used => ?_, List.nodup_nil⟩
    · cases member
    · obtain ⟨-, rfl⟩ := Prod.mk.inj (List.mem_singleton.mp member)
      cases used
  refine run_invariant (I := fun heap => ∃ blocks, heap.Sound blocks ∧
    total blocks = roundUpToNextPowerOf2 initialSize) (fun heap op heap' invariant stepped => ?_) ran
    ⟨[⟨order, true⟩], start, by rw [total_cons, size]; rfl⟩
  obtain ⟨blocks, sound, bytes⟩ := invariant
  obtain ⟨blocks', kept⟩ := buddyStep_keeps sound stepped
  exact ⟨blocks', kept.sound, kept.total.trans bytes⟩

/-- **The heap is tiled and its payloads are apart.** The blocks reached from `head` by following the
sizes end at `tail`; every size is a power of two of at least 16; used and free bytes add up to the
rounded initial size; the payload of a live allocation lies in a used block of its own, after the
header; and no two live payloads overlap. -/
structure BuddyHeap.Tiled (heap : BuddyHeap) (initialSize : Nat) (blocks : List Block) : Prop where
  tiles : Tiles heap.mem heap.alloc.head blocks heap.alloc.tail
  powers : ∀ b ∈ blocks, 16 ≤ b.size ∧ ∃ k, b.size = 2 ^ k
  bytes : total (blocks.filter fun b => !b.free) + total (blocks.filter fun b => b.free) =
    roundUpToNextPowerOf2 initialSize
  stats : ∃ stats, buddyAllocGetStats heap.mem heap.alloc = some stats ∧
    stats.used = total (blocks.filter fun b => !b.free) ∧
    stats.total = roundUpToNextPowerOf2 initialSize
  inside : ∀ p n, (p, n) ∈ heap.live → ∃ b, (p - 16, b) ∈ placed heap.alloc.head blocks ∧
    b.free = false ∧ 16 ≤ p ∧ p + n ≤ p - 16 + b.size
  apart : heap.live.Pairwise fun x y => x.1 + x.2 ≤ y.1 ∨ y.1 + y.2 ≤ x.1

/-- What a further operation does: it is defined, and leaves the headers and the payloads of the other
live allocations, and all that is outside the heap, as they are. -/
structure BuddyHeap.Steps (heap : BuddyHeap) : Prop where
  allocates : ∀ size, size ≤ 2 ^ 62 → ∃ heap', buddyStep heap (.allocate size) = some heap'
  frees : ∀ p n, (p, n) ∈ heap.live → ∃ heap', buddyStep heap (.free p) = some heap'
  keeps : ∀ op heap', buddyStep heap op = some heap' → KeepsOthers heap op heap'

theorem total_filter : ∀ blocks : List Block,
    total (blocks.filter fun b => !b.free) + total (blocks.filter fun b => b.free) = total blocks
  | [] => rfl
  | ⟨order, free⟩ :: rest => by
    have later := total_filter rest
    cases free with
    | false =>
      show total (⟨order, false⟩ :: rest.filter fun b => !b.free) +
        total (rest.filter fun b => b.free) = _
      rw [total_cons, total_cons]
      omega
    | true =>
      show total (rest.filter fun b => !b.free) +
        total (⟨order, true⟩ :: rest.filter fun b => b.free) = _
      rw [total_cons, total_cons]
      omega

theorem countAll_used : ∀ (blocks : List Block) (stats : BuddyStats),
    (stats.countAll blocks).used = stats.used + total (blocks.filter fun b => !b.free)
  | [], stats => rfl
  | ⟨order, free⟩ :: rest, stats => by
    have later := countAll_used rest (stats.count (Block.mk order free).size free)
    cases free with
    | false =>
      show _ = stats.used + total (⟨order, false⟩ :: rest.filter fun b => !b.free)
      rw [total_cons, ← Nat.add_assoc]
      exact later
    | true => exact later

/-- Two live allocations at different addresses do not overlap. -/
theorem BuddyHeap.Sound.live_apart (sound : heap.Sound blocks) {x y : Nat × Nat}
    (memberX : x ∈ heap.live) (memberY : y ∈ heap.live) (different : x.1 ≠ y.1) :
    x.1 + x.2 ≤ y.1 ∨ y.1 + y.2 ≤ x.1 := by
  obtain ⟨b, thereB, -, lowB, highB⟩ := sound.live x.1 x.2 memberX
  obtain ⟨c, thereC, -, lowC, highC⟩ := sound.live y.1 y.2 memberY
  rcases placed_apart thereB thereC with ⟨same, -⟩ | before | after
  · exact absurd (show x.1 = y.1 by omega) different
  · exact Or.inl (by omega)
  · exact Or.inr (by omega)

/-- A sound heap is tiled. -/
theorem BuddyHeap.Sound.tiled (sound : heap.Sound blocks)
    (bytes : total blocks = roundUpToNextPowerOf2 initialSize) : heap.Tiled initialSize blocks where
  tiles := sound.tiles
  powers b _ := by
    refine ⟨b.size_ge, 4 + b.order, ?_⟩
    rw [pow_add]
    rfl
  bytes := (total_filter blocks).trans bytes
  stats := by
    refine ⟨_, buddyAllocGetStats_spec sound.tiles, ?_, ?_⟩
    · rw [countAll_used]
      exact Nat.zero_add _
    · rw [countAll_total, bytes]
      exact Nat.zero_add _
  inside := sound.live
  apart := by
    have distinct := List.pairwise_map.mp sound.distinct
    exact List.Pairwise.imp_of_mem (fun memberX memberY => sound.live_apart memberX memberY) distinct

/-- **Every run keeps the heap tiled and its allocations apart.** -/
theorem buddyRun_tiled (palloc : BuddyAllocationProc) (mem : Mem) (initialSize alignment : Nat)
    (large : 16 ≤ initialSize) (word : initialSize < 2 ^ 64) (ops : List BuddyOp)
    (heap : BuddyHeap) (ran : buddyRun palloc mem initialSize alignment ops = some heap)
    (aligned : heap.alloc.alignment = 16) :
    ∃ blocks, heap.Tiled initialSize blocks ∧ heap.Steps := by
  obtain ⟨blocks, sound, bytes⟩ := buddyRun_sound large word ran aligned
  refine ⟨blocks, sound.tiled bytes, fun size small => allocate_defined sound small,
    fun p n live => free_defined sound live, fun op heap' stepped => ?_⟩
  obtain ⟨blocks', kept⟩ := buddyStep_keeps sound stepped
  exact kept.others

/-- A page allocator: blocks move up, and a new size of 0 is a free. -/
def pagePalloc : BuddyAllocationProc where
  realloc m ptr prevsize newsize :=
    if newsize = 0 then none else Realloc.moving.realloc m ptr prevsize newsize
  bounded granted := Realloc.moving.bounded (Option.ite_none_left_eq_some.mp granted).2
  keeps granted := Realloc.moving.keeps (Option.ite_none_left_eq_some.mp granted).2
  frees _ _ _ := rfl

/-- A heap of 128 bytes at 1. The first allocation takes the block of 64 at 65, the others the two
blocks of 32 before it. -/
def pairThenFree : List BuddyOp :=
  [.allocate 48, .allocate 16, .write 81 40 [1, 2, 3], .allocate 10, .free 81]

/-- The heap that the operations lead to: a used pair of 32 and a free block of 64. -/
theorem pairThenFree_reaches :
    ∃ heap, buddyRun pagePalloc (fun _ => 0) 100 8 pairThenFree = some heap ∧
      heap.alloc.alignment = 16 ∧
      Tiles heap.mem heap.alloc.head [⟨1, false⟩, ⟨1, false⟩, ⟨2, true⟩] heap.alloc.tail ∧
      (buddyAllocRealloc heap.mem heap.alloc 0 48).map Prod.snd = some 0 := by
  have reaches : ((buddyRun pagePalloc (fun _ => 0) 100 8 pairThenFree).any fun heap =>
      decide (heap.alloc.alignment = 16 ∧
        Tiles heap.mem heap.alloc.head [⟨1, false⟩, ⟨1, false⟩, ⟨2, true⟩] heap.alloc.tail ∧
        (buddyAllocRealloc heap.mem heap.alloc 0 48).map Prod.snd = some 0)) = true := by
    decide +kernel
  obtain ⟨heap, ran, facts⟩ := (Option.any_eq_true _ _).mp reaches
  exact ⟨heap, ran, of_decide_eq_true facts⟩

/-- The heap of a run of three allocations, a write and a free. -/
theorem buddyRun_tiled_pair :
    16 ≤ 100 ∧ 100 < 2 ^ 64 ∧ ∃ heap,
      buddyRun pagePalloc (fun _ => 0) 100 8 pairThenFree = some heap ∧
        heap.alloc.alignment = 16 ∧ ∃ blocks, heap.Tiled 100 blocks ∧ heap.Steps := by
  obtain ⟨heap, ran, aligned, -⟩ := pairThenFree_reaches
  exact ⟨by decide, by decide, heap, ran, aligned,
    buddyRun_tiled pagePalloc (fun _ => 0) 100 8 (by decide) (by decide) pairThenFree heap ran
      aligned⟩

/-! ### Completeness -/

/-- Some free block of the list has at least the size requirement. -/
def SomeSuits (blocks : List Block) (actualSize : Nat) : Prop :=
  ∃ b ∈ blocks, b.free = true ∧ actualSize ≤ b.size

/-- A request is granted if some free block of the tiling has at least its size requirement. -/
def BuddyHeap.Complete (heap : BuddyHeap) (blocks : List Block) (size : Nat) : Prop :=
  ∀ actualSize, sizeReq heap.alloc size = some actualSize → SomeSuits blocks actualSize →
    ∃ result, buddyAllocRealloc heap.mem heap.alloc 0 size = some result ∧ result.2 ≠ 0

/-- **A request is granted if the walk of the search meets a free block that suits.** In every heap
that a run reaches, an allocation finds a block whenever, if some free block of the tiling has the
size, then one that the walk over the tiling does not leave out has it. -/
theorem buddyRun_complete (palloc : BuddyAllocationProc) (mem : Mem) (initialSize alignment : Nat)
    (large : 16 ≤ initialSize) (word : initialSize < 2 ^ 64) (ops : List BuddyOp)
    (heap : BuddyHeap) (ran : buddyRun palloc mem initialSize alignment ops = some heap)
    (aligned : heap.alloc.alignment = 16) (blocks : List Block)
    (tiles : Tiles heap.mem heap.alloc.head blocks heap.alloc.tail) (size : Nat)
    (small : size ≤ 2 ^ 62)
    (meets : ∀ actualSize, sizeReq heap.alloc size = some actualSize →
      SomeSuits blocks actualSize → SomeSuits (met blocks) actualSize) :
    heap.Complete blocks size := by
  obtain ⟨blocks', sound, -⟩ := buddyRun_sound large word ran aligned
  have nonempty := sound.tiles.ne_nil tiles sound.nonempty
  intro actualSize required suits
  obtain ⟨b, member, free, fits⟩ := meets actualSize required suits
  obtain ⟨k, result, required', -, ran', outcome⟩ := buddyAllocate_spec aligned sound.headPos
    sound.bounded tiles nonempty small
  cases required.symm.trans required'
  refine ⟨result, ran', ?_⟩
  cases outcome with
  | null blocks' none tiles rearranged nothing =>
    have := nothing b member free
    omega
  | block mem' a blocks' same tiles rearranged found =>
    rw [same]
    exact Nat.succ_ne_zero _

/-- A second request for 16 bytes. -/
theorem buddyRun_complete_pair :
    ∃ heap, buddyRun pagePalloc (fun _ => 0) 100 8 [.allocate 16] = some heap ∧
      heap.alloc.alignment = 16 ∧
      Tiles heap.mem heap.alloc.head [⟨2, true⟩, ⟨1, true⟩, ⟨1, false⟩] heap.alloc.tail ∧
      heap.Complete [⟨2, true⟩, ⟨1, true⟩, ⟨1, false⟩] 16 := by
  have reaches : ((buddyRun pagePalloc (fun _ => 0) 100 8 [.allocate 16]).any fun heap =>
      decide (heap.alloc.alignment = 16 ∧
        Tiles heap.mem heap.alloc.head [⟨2, true⟩, ⟨1, true⟩, ⟨1, false⟩] heap.alloc.tail ∧
        sizeReq heap.alloc 16 = some 32)) = true := by
    decide +kernel
  obtain ⟨heap, ran, facts⟩ := (Option.any_eq_true _ _).mp reaches
  obtain ⟨aligned, tiles, required⟩ := of_decide_eq_true facts
  refine ⟨heap, ran, aligned, tiles, buddyRun_complete pagePalloc (fun _ => 0) 100 8 (by decide)
    (by decide) [.allocate 16] heap ran aligned _ tiles 16 (by decide) ?_⟩
  intro actualSize required' _
  cases required.symm.trans required'
  exact ⟨⟨1, true⟩, by decide, rfl, by decide⟩

/-- **A free block is left out**: a block of 64 is free, and a request that needs 64 fails. -/
theorem pairThenFree_refused :
    ¬ ∀ (palloc : BuddyAllocationProc) (mem : Mem) (initialSize alignment : Nat),
      16 ≤ initialSize → initialSize < 2 ^ 64 → ∀ (ops : List BuddyOp) (heap : BuddyHeap),
        buddyRun palloc mem initialSize alignment ops = some heap → heap.alloc.alignment = 16 →
        ∀ blocks, Tiles heap.mem heap.alloc.head blocks heap.alloc.tail →
          ∀ size, size ≤ 2 ^ 62 → heap.Complete blocks size := by
  intro claimed
  obtain ⟨heap, ran, aligned, tiles, refused⟩ := pairThenFree_reaches
  have required : sizeReq heap.alloc 48 = some 64 := by
    rw [sizeReq, aligned]
    decide
  obtain ⟨result, granted, nonzero⟩ := claimed pagePalloc (fun _ => 0) 100 8 (by decide) (by decide)
    pairThenFree heap ran aligned _ tiles 48 (by decide) 64 required
    ⟨⟨2, true⟩, by decide, rfl, by decide⟩
  rw [granted] at refused
  exact nonzero (Option.some.inj refused)

end Runs

end Vaudou
