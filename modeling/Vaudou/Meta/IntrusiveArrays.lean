/-
**The arrays that a registry has by default.**

An intrusive array is a pointer to its first element, with `VD_Meta__ArrayHeader` in front: the length
and the capacity. Sizes and capacities are `uint32_t`, also where a `size_t` is passed.

* `default_outstanding` — the add procedure leaves no fewer blocks outstanding.
-/

import Vaudou.Foundation.Reallocation
import Vaudou.Meta.Registry

namespace Vaudou

open Vaudou.Memory

/-- `VD_META_ARRAY_LEN`. -/
def metaArrayLen (mem : Mem) (a : Nat) : Nat := if a = 0 then 0 else mem.readNat (a - 8) 4

/-- `VD_META_ARRAY_CAP`. -/
def metaArrayCap (mem : Mem) (a : Nat) : Nat := if a = 0 then 0 else mem.readNat (a - 4) 4

/-- The capacity in `vd_meta__array_grow` for at least `mincap` elements. -/
def metaGrowCap (cap mincap : Nat) : Nat :=
  let double := 2 * cap % 2 ^ 32
  if mincap < double then double else if mincap < 4 then 4 else mincap

variable (A : BlockAlloc)

/-- `vd_meta__array_grow`: the heap, and the array. -/
def metaArrayGrow (heap : BlockHeap) (a tsize addlen mincap : Nat) : Option (BlockHeap × Nat) :=
  let minLen := (metaArrayLen heap.mem a + addlen) % 2 ^ 32
  let mincap := if mincap < minLen then minLen else mincap
  let cap := metaArrayCap heap.mem a
  if mincap ≤ cap then some (heap, a)
  else
    let newcap := metaGrowCap cap mincap
    (A.realloc heap (if a = 0 then 0 else a - 8) (if cap = 0 then 0 else tsize * cap % 2 ^ 32 + 8)
        (tsize * newcap % 2 ^ 32 + 8)).map fun granted =>
      let b := granted.2 + 8
      let mem := if a = 0 then granted.1.mem.writeNat (b - 8) 4 0 else granted.1.mem
      ({ granted.1 with mem := mem.writeNat (b - 4) 4 newcap }, b)

/-- `vd_meta__intrusive_array_add_default_proc` without an element. -/
def intrusiveArrayAdd (heap : BlockHeap) (array size : Nat) : Option BlockHeap :=
  let a := heap.mem.readNat array 8
  let grown := if a = 0 ∨ metaArrayCap heap.mem a < (metaArrayLen heap.mem a + 1) % 2 ^ 32 then
      (metaArrayGrow A heap a (size % 2 ^ 32) 1 0).map fun grown =>
        { grown.1 with mem := grown.1.mem.writeNat array 8 grown.2 }
    else some heap
  grown.map fun heap =>
    let a := heap.mem.readNat array 8
    { heap with mem := heap.mem.writeNat (a - 8) 4 ((heap.mem.readNat (a - 8) 4 + 1) % 2 ^ 32) }

/-- The procedures that `vd_meta_init` gives a registry. -/
def IntrusiveArrayProps.default : IntrusiveArrayProps := ⟨metaArrayLen, intrusiveArrayAdd A⟩

/-- **An element is added** without leaving fewer blocks outstanding. -/
def IntrusiveArrayProps.Outstanding (props : IntrusiveArrayProps) : Prop :=
  ∀ heap array size heap', props.add heap array size = some heap' → heap.live.length ≤ heap'.live.length

variable {A} {heap heap' : BlockHeap}

theorem metaArrayGrow_outstanding {a tsize addlen mincap b : Nat}
    (grown : metaArrayGrow A heap a tsize addlen mincap = some (heap', b)) :
    heap.live.length ≤ heap'.live.length := by
  unfold metaArrayGrow at grown
  dsimp only at grown
  generalize (if mincap < _ then _ else mincap) = needed at grown
  by_cases enough : needed ≤ metaArrayCap heap.mem a
  · rw [if_pos enough] at grown
    cases grown
    exact le_rfl
  · rw [if_neg enough] at grown
    obtain ⟨⟨granted, p⟩, called, same⟩ := Option.map_eq_some_iff.mp grown
    obtain ⟨rfl, -⟩ := Prod.mk.inj same
    have kept : heap.live.length ≤ granted.live.length := realloc_outstanding (Nat.succ_ne_zero _) called
    exact kept

theorem intrusiveArrayAdd_outstanding {array size : Nat}
    (added : intrusiveArrayAdd A heap array size = some heap') : heap.live.length ≤
      heap'.live.length := by
  unfold intrusiveArrayAdd at added
  dsimp only at added
  obtain ⟨next, grown, rfl⟩ := Option.map_eq_some_iff.mp added
  show heap.live.length ≤ next.live.length
  by_cases full : heap.mem.readNat array 8 = 0 ∨ metaArrayCap heap.mem (heap.mem.readNat array 8) <
      (metaArrayLen heap.mem (heap.mem.readNat array 8) + 1) % 2 ^ 32
  · rw [if_pos full] at grown
    obtain ⟨⟨next', b⟩, grow, rfl⟩ := Option.map_eq_some_iff.mp grown
    have kept : heap.live.length ≤ next'.live.length := metaArrayGrow_outstanding grow
    exact kept
  · rw [if_neg full] at grown
    cases grown
    exact le_rfl

theorem default_add (A : BlockAlloc) : (IntrusiveArrayProps.default A).add = intrusiveArrayAdd A := by
  unfold IntrusiveArrayProps.default
  dsimp only

/-- The arrays of a registry do that. -/
theorem default_outstanding (A : BlockAlloc) : (IntrusiveArrayProps.default A).Outstanding := by
  intro heap array size heap' added
  rw [default_add] at added
  exact intrusiveArrayAdd_outstanding added

end Vaudou
