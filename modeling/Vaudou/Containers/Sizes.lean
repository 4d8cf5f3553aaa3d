/-
**The sizes that arrays and string maps pass to their allocator.**

An array is its header here, and a map is the one of `StrMap.Table` with the address of its block. The
sizes are those of the code, which computes them anew at every place: as `size_t`, and the size of a
table as `u32`. `heap.live` are the blocks that the allocator has outstanding; it may hand out again what
was given back. `none` is a call through a pointer that is no allocator, a request that is refused, or an
operation on a container that is not there.
-/

import Vaudou.Foundation.SizedCalls
import Vaudou.StrMap.Lookup

namespace Vaudou

open Vaudou.Memory

/-- An array: the pointer, and its `VD_ArrayHeader`. -/
structure SizedArray where
  a : Nat
  len : Nat
  cap : Nat
  allocator : Nat

/-- A string map, and the address of its `VD_StrMapHeader`. -/
structure SizedMap where
  header : Nat
  map : StrMap

/-- The memory, the calls made so far, and the variables: arrays (null at first) and maps. -/
structure Containers where
  heap : BlockHeap
  calls : List SizedCall
  arrays : Nat → SizedArray
  maps : Nat → Option SizedMap

/-- The allocation procedure, the address of its `VD_Allocator`, the element sizes of the variables, and
what is in memory behind a table. -/
structure ContainersEnv where
  alloc : BlockAlloc
  address : Nat
  tsize : Nat → Nat
  valueSize : Nat → Nat
  behind : Nat → StrBin

/-- A variable is assigned. -/
def Containers.setArray (s : Containers) (i : Nat) (arr : SizedArray) : Containers :=
  { s with arrays := Function.update s.arrays i arr }

def Containers.setMap (s : Containers) (j : Nat) (m : Option SizedMap) : Containers :=
  { s with maps := Function.update s.maps j m }

section Sizes

/-- `tsize * cap + sizeof(VD_ArrayHeader)`. -/
def arrayBytes (tsize cap : Nat) : Nat := (tsize * cap + 24) % 2 ^ 64

/-- `VD_ARRAY_CAP(a) * sizeof(*a)`. -/
def arrayDeinitBytes (tsize cap : Nat) : Nat := (cap * tsize) % 2 ^ 64

/-- The capacity in `vd_array_grow` for at least `mincap` elements. -/
def sizedGrowCap (cap mincap : Nat) : Nat :=
  let double := 2 * cap % 2 ^ 64
  if mincap < double then double else if mincap < 4 then 4 else mincap

/-- `VD_STRMAP_DEFAULT_CAP`. -/
def strmapDefaultCap : Nat := 2048

/-- `sizeof(VD_StrMapHeader) + bin_size * cap`. -/
def strmapBytes (tsize cap : Nat) : Nat := 24 + ((72 + tsize) % 2 ^ 32 * cap) % 2 ^ 32

end Sizes

section Operations

variable (E : ContainersEnv)

/-- `vd_realloc`. -/
def vdRealloc (s : Containers) (allocator ptr prevsize newsize : Nat) : Option (Containers × Nat) :=
  if allocator ≠ E.address then none
  else
    let kept : BlockHeap := { s.heap with live := s.heap.live.filter (·.1 != ptr) }
    (if newsize = 0 then some (kept, 0) else E.alloc.alloc kept newsize).map fun granted =>
      ({ s with
          heap := granted.1
          calls := s.calls ++ [⟨allocator, ptr, prevsize, newsize, granted.2⟩] }, granted.2)

/-- `VD_ARRAY_LEN`. -/
def sizedArrayLen (arr : SizedArray) : Nat := if arr.a = 0 then 0 else arr.len

/-- `VD_ARRAY_CAP`. -/
def sizedArrayCap (arr : SizedArray) : Nat := if arr.a = 0 then 0 else arr.cap

/-- The part of `vd_array_grow` behind the early return. -/
def sizedArrayMove (s : Containers) (i newcap allocator : Nat) : Option Containers :=
  let arr := s.arrays i
  (vdRealloc E s allocator (if arr.a = 0 then 0 else arr.a - 24)
      (if sizedArrayCap arr = 0 then 0 else arrayBytes (E.tsize i) (sizedArrayCap arr))
      (arrayBytes (E.tsize i) newcap)).bind fun granted =>
    if granted.2 = 0 then none
    else some (granted.1.setArray i ⟨granted.2 + 24, sizedArrayLen arr, newcap,
      if arr.a = 0 then allocator else arr.allocator⟩)

/-- `vd_array_grow`. -/
def sizedArrayGrow (s : Containers) (i addlen mincap allocator : Nat) : Option Containers :=
  let arr := s.arrays i
  let minLen := (sizedArrayLen arr + addlen) % 2 ^ 64
  let mincap := if mincap < minLen then minLen else mincap
  if mincap ≤ sizedArrayCap arr then some s
  else sizedArrayMove E s i (sizedGrowCap (sizedArrayCap arr) mincap) allocator

/-- `VD_ARRAY_ALC`. -/
def sizedArrayAlc (arr : SizedArray) : Nat := if arr.a = 0 then 0 else arr.allocator

/-- `VD_ARRAY_ADDN`; `VD_ARRAY_ADD`, `VD_ARRAY_ADDP` and `VD_ARRAY_PUSH` for one element. -/
def sizedArrayAddn (s : Containers) (i n : Nat) : Option Containers :=
  let arr := s.arrays i
  (if arr.a = 0 ∨ arr.cap < (arr.len + n) % 2 ^ 64 then sizedArrayGrow E s i n 0 (sizedArrayAlc arr)
    else some s).map fun s =>
      s.setArray i { s.arrays i with len := ((s.arrays i).len + n) % 2 ^ 64 }

/-- `VD_ARRAY_DEINIT`; the pointer is not used again. -/
def sizedArrayDeinit (s : Containers) (i : Nat) : Option Containers :=
  let arr := s.arrays i
  if arr.a = 0 then none
  else (vdRealloc E s arr.allocator (arr.a - 24) (arrayDeinitBytes (E.tsize i) arr.cap) 0).map
    fun granted => granted.1.setArray i ⟨0, 0, 0, 0⟩

/-- `VD_STRMAP_INIT`. -/
def sizedMapInit (s : Containers) (j : Nat) : Option Containers :=
  (vdRealloc E s E.address 0 0 (strmapBytes (E.valueSize j) strmapDefaultCap)).map fun granted =>
    granted.1.setMap j (some ⟨granted.2,
      strmapInit E.address (E.valueSize j) strmapDefaultCap E.behind⟩)

/-- `VD_STRMAP_SET`, with the calls of `copy_key`: what is outstanding behind it and not before. -/
def sizedMapSet (s : Containers) (j : Nat) (key value : List UInt8) : Option Containers :=
  (s.maps j).bind fun m => (strmapSet E.alloc ⟨m.map, s.heap, []⟩ key value).map fun result =>
    let obtained := result.1.heap.live.take (result.1.heap.live.length - s.heap.live.length)
    Containers.setMap { s with
      heap := result.1.heap
      calls := s.calls ++ obtained.map fun block => ⟨m.map.allocator, 0, 0, block.2, block.1⟩ }
      j (some { m with map := result.1.map })

/-- `VD_STRMAP_DEL`, with the calls of `vd_free`. -/
def sizedMapDel (s : Containers) (j : Nat) (key : List UInt8) : Option Containers :=
  (s.maps j).bind fun m => (strmapDel E.alloc ⟨m.map, s.heap, []⟩ key).map fun result =>
    let freed := result.1.freed
    Containers.setMap { s with
      heap := { result.1.heap with
        live := result.1.heap.live.filter fun block => !freed.any fun f => f.1 == block.1 }
      calls := s.calls ++ freed.map fun f => ⟨m.map.allocator, f.1, f.2, 0, 0⟩ }
      j (some { m with map := result.1.map })

/-- `VD_STRMAP_DEINIT`; the map is not used again. -/
def sizedMapDeinit (s : Containers) (j : Nat) : Option Containers :=
  (s.maps j).bind fun m =>
    (vdRealloc E s m.map.allocator m.header m.map.capTotal 0).map fun granted =>
      granted.1.setMap j none

end Operations

/-- The operations. An array loses elements by `VD_ARRAY_POP`, `VD_ARRAY_DELN` and the like. A key is no
longer than a `u32`. -/
inductive SizedOp where
  | arrayInit (i : Nat)
  | arrayGrow (i addlen mincap : Nat)
  | arrayAddn (i n : Nat)
  | arrayRemove (i n : Nat)
  | arrayDeinit (i : Nat)
  | mapInit (j : Nat)
  | mapSet (j : Nat) (key value : List UInt8)
  | mapDel (j : Nat) (key : List UInt8)
  | mapDeinit (j : Nat)

/-- An operation. -/
def sizedStep (E : ContainersEnv) (s : Containers) : SizedOp → Option Containers
  | .arrayInit i => sizedArrayGrow E s i 1 0 E.address
  | .arrayGrow i addlen mincap => sizedArrayGrow E s i addlen mincap (sizedArrayAlc (s.arrays i))
  | .arrayAddn i n => sizedArrayAddn E s i n
  | .arrayRemove i n =>
    if (s.arrays i).a ≠ 0 ∧ n ≤ (s.arrays i).len then
      some (s.setArray i { s.arrays i with len := (s.arrays i).len - n })
    else none
  | .arrayDeinit i => sizedArrayDeinit E s i
  | .mapInit j => sizedMapInit E s j
  | .mapSet j key value => if key.length < 2 ^ 32 then sizedMapSet E s j key value else none
  | .mapDel j key => if key.length < 2 ^ 32 then sizedMapDel E s j key else none
  | .mapDeinit j => sizedMapDeinit E s j

/-- No container is there. -/
def noContainers (heap : BlockHeap) : Containers := ⟨heap, [], fun _ => ⟨0, 0, 0, 0⟩, fun _ => none⟩

end Vaudou
