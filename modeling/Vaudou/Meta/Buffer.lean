/-
**The temporary memory of the parser: a text buffer and an arena.**

The strings of a text go to a buffer that grows, one character after the other, and each gets a
terminator that the next one overwrites. The arena is made with one block; the parser takes nothing from
it.
-/

import Vaudou.Foundation.Reallocation
import Vaudou.Foundation.Run

namespace Vaudou

open Vaudou.Memory Vaudou.Run

/-- `VD_Meta__Buffer`, and the memory it is in. -/
structure MetaBuffer where
  ptr : Nat
  len : Nat
  cap : Nat
  heap : BlockHeap

/-- What a string does to a buffer. -/
inductive BufferPush where
  | pushchar (c : UInt8)
  | terminate

section Buffers

variable (T : BlockAlloc)

/-- `vd_meta__buffer_ensure_add`. -/
def bufferEnsureAdd (b : MetaBuffer) (len : Nat) : Option MetaBuffer :=
  if b.cap < (b.len + len) % 2 ^ 64 then
    let cap := (b.cap * 2 + len) % 2 ^ 64
    (T.realloc b.heap b.ptr b.len cap).map fun granted => ⟨granted.2, b.len, cap, granted.1⟩
  else some b

/-- `vd_meta__buffer_pushchar` and `vd_meta__buffer_terminate`. -/
def bufferPush (b : MetaBuffer) (push : BufferPush) : Option MetaBuffer :=
  (bufferEnsureAdd T b 1).map fun b =>
    match push with
    | .pushchar c =>
      { b with heap := { b.heap with mem := b.heap.mem.store (b.ptr + b.len) [c] }, len := b.len + 1 }
    | .terminate => { b with heap := { b.heap with mem := b.heap.mem.store (b.ptr + b.len) [0] } }

/-- `vd_meta__buffer_clear`. -/
def bufferClear (b : MetaBuffer) : MetaBuffer := { b with len := 0 }

/-- `vd_meta__buffer_free`. -/
def bufferFree (b : MetaBuffer) : MetaBuffer := ⟨0, 0, 0, b.heap.release b.ptr⟩

/-- `vd_meta__arena_init`, with the address of the block, which is all that the arena has. -/
def metaArenaInit (heap : BlockHeap) : Option (BlockHeap × Nat) :=
  let header := leBytes 8 0 ++ leBytes 8 1024 ++ leBytes 8 0 ++ leBytes 8 0
  (T.realloc heap 0 0 (32 + 1024)).map fun granted =>
    ({ granted.1 with mem := granted.1.mem.store granted.2 header }, granted.2)

/-- `vd_meta__arena_free` with the one block. -/
def metaArenaFree (heap : BlockHeap) (block : Nat) : BlockHeap := heap.release block

end Buffers

/-- The buffer has its block, the last one that was granted, if it has one. -/
structure MetaBuffer.OnTop (b : MetaBuffer) (live : List (Nat × Nat)) : Prop where
  empty : b.cap = 0 → b.ptr = 0 ∧ b.heap.live = live
  block : b.cap ≠ 0 → 0 < b.ptr ∧ b.heap.live = (b.ptr, b.cap) :: live

section Pushes

variable {T : BlockAlloc} {b b' : MetaBuffer} {live : List (Nat × Nat)}

/-- Memory and length are none of the block's business. -/
theorem MetaBuffer.OnTop.write (top : b.OnTop live) (mem : Mem) (len : Nat) :
    MetaBuffer.OnTop { b with heap := { b.heap with mem := mem }, len := len } live :=
  ⟨top.empty, top.block⟩

theorem MetaBuffer.OnTop.clear (top : b.OnTop live) : (bufferClear b).OnTop live :=
    ⟨top.empty, top.block⟩

/-- **Nothing is left** of a buffer that is freed. -/
theorem MetaBuffer.OnTop.freed (top : b.OnTop live) : (bufferFree b).heap.live = live := by
  show (b.heap.release b.ptr).live = live
  by_cases zero : b.cap = 0
  · obtain ⟨null, same⟩ := top.empty zero
    rw [null, release_null, same]
  · obtain ⟨pos, same⟩ := top.block zero
    exact release_last pos.ne' same

/-- **Growth** swaps the block. -/
theorem MetaBuffer.OnTop.ensureAdd {len : Nat} (top : b.OnTop live)
    (grown : bufferEnsureAdd T b len = some b') :
    b'.OnTop live := by
  unfold bufferEnsureAdd at grown
  split at grown
  · obtain ⟨⟨heap', p⟩, granted, rfl⟩ := Option.map_eq_some_iff.mp grown
    have released : (b.heap.release b.ptr).live = live := top.freed
    refine ⟨fun zero => ?_, fun some_ => ?_⟩
    · have zero : (b.cap * 2 + len) % 2 ^ 64 = 0 := zero
      rw [zero, BlockAlloc.realloc, if_pos rfl] at granted
      obtain ⟨rfl, rfl⟩ := Prod.mk.inj (Option.some.inj granted)
      exact ⟨rfl, released⟩
    · obtain ⟨pos, same⟩ := realloc_granted some_ granted
      rw [released] at same
      exact ⟨pos, same⟩
  · cases grown
    exact top

/-- **Pushes** keep it at that. -/
theorem MetaBuffer.OnTop.push {push : BufferPush} (top : b.OnTop live)
    (pushed : bufferPush T b push = some b') :
    b'.OnTop live := by
  obtain ⟨grown, ensured, rfl⟩ := Option.map_eq_some_iff.mp pushed
  cases push with
  | pushchar c => exact (top.ensureAdd ensured).write _ _
  | terminate => exact (top.ensureAdd ensured).write _ grown.len

theorem MetaBuffer.OnTop.pushes {pushes : List BufferPush} (top : b.OnTop live)
    (ran : run (bufferPush T) b pushes = some b') : b'.OnTop live :=
  run_invariant (I := fun b => b.OnTop live) (fun _ _ _ top pushed => top.push pushed) ran top

/-- The block of the arena is outstanding. -/
theorem metaArenaInit_spec {heap heap' : BlockHeap} {block : Nat}
    (made : metaArenaInit T heap = some (heap', block)) :
    0 < block ∧ heap'.live = (block, 1056) :: heap.live := by
  obtain ⟨⟨next, p⟩, granted, same⟩ := Option.map_eq_some_iff.mp made
  obtain ⟨rfl, rfl⟩ := Prod.mk.inj same
  exact realloc_granted (by decide) granted

end Pushes

end Vaudou
