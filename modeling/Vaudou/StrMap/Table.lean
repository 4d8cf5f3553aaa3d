/-
**The string map of `strmap.c`: a table of bins.**

A key hashes to one of the first `cap` bins of the table (its home bin). A key whose home bin is taken
gets a bin from the end of the table, which no `next` link leads to. `next` is an index instead of a
pointer, and the bytes of a key behind its first 43 are in a block of the heap.

`bins` goes on behind the table: the search for a free bin starts at index `cap_total`. `none` is
undefined behaviour: an allocator that is no allocator, a refused block, links that do not end.
-/

import Vaudou.Foundation.BlockHeap
import Vaudou.Foundation.Float32
import Vaudou.Foundation.Hash
import Vaudou.Foundation.Links

namespace Vaudou

open Vaudou.Memory Vaudou.Links

/-- `VD_BinPrefix`, with the value behind it. -/
structure StrBin where
  next : Option Nat
  keyLen : Nat
  used : Bool
  keyRest : Nat
  keyPrefix : List UInt8
  value : List UInt8
deriving DecidableEq, Repr

/-- A bin cleared by `memset`. -/
def StrBin.zero (tsize : Nat) : StrBin :=
  ⟨none, 0, false, 0, List.replicate 43 0, List.replicate tsize 0⟩

/-- `VD_StrMapHeader`, and the bins. -/
structure StrMap where
  cap : Nat
  capTotal : Nat
  tsize : Nat
  allocator : Nat
  bins : Nat → StrBin

/-- A map, the heap its keys are in, and what was given back to the allocator. -/
structure StrMapState where
  map : StrMap
  heap : BlockHeap
  freed : List (Nat × Nat)

/-- `vd_hash` with `VD_HASH_DEFAULT_SEED`. -/
def vdHash (key : List UInt8) : Nat := hashFrom key (0x9747b28c ^^^ key.length)

/-- The significand of `0.86f`, which is it over `2 ^ 24`. -/
def loadFactor : Nat := 14428406

/-- `(u32)(((float)(cap)) * 0.86f)`. -/
def reducedCap (capTotal : Nat) : Nat :=
  Float.roundSignificand (Float.roundSignificand capTotal * loadFactor) / 2 ^ 24

/-- `vd__strmap_init`; behind the table the memory is as it is. -/
def strmapInit (allocator tsize capTotal : Nat) (behind : Nat → StrBin) : StrMap where
  cap := reducedCap capTotal
  capTotal := capTotal
  tsize := tsize
  allocator := allocator
  bins i := if i < capTotal then .zero tsize else behind i

/-- The home bin of a key. -/
def StrMap.home (map : StrMap) (key : List UInt8) : Nat := vdHash key % map.cap

/-- The `next` links. -/
def StrMap.next (map : StrMap) (i : Nat) : Option Nat := (map.bins i).next

/-- `VD_STRMAP_HEADER(bin)->allocator`: the eight bytes in front of a bin. In front of the first bin
they are the allocator of the header, and in front of another one the last bytes of the bin before. -/
def StrMap.headerAllocator (map : StrMap) (i : Nat) : Nat :=
  if i = 0 then map.allocator
  else
    let before := map.bins (i - 1)
    leValue ((before.keyPrefix ++ List.replicate 5 0 ++ before.value).drop (40 + map.tsize))

/-- `check_key`. -/
def checkKey (heap : BlockHeap) (check : List UInt8) (against : StrBin) : Bool :=
  if against.keyLen ≠ check.length then false
  else if against.keyPrefix.take (min 43 check.length) ≠ check.take 43 then false
  else if check.length < 43 then true
  else heap.mem.load against.keyRest (check.length - 43) == check.drop 43

section Operations

variable (A : BlockAlloc)

/-- `copy_key` into the bin `i`. -/
def copyKey (s : StrMapState) (key : List UInt8) (i : Nat) : Option StrMapState :=
  let bin := s.map.bins i
  let bin := { bin with
    keyLen := key.length
    keyPrefix := key.take 43 ++ bin.keyPrefix.drop (min 43 key.length) }
  if 43 < key.length then
    if s.map.headerAllocator i ≠ s.map.allocator then none
    else
      (A.alloc s.heap (key.length - 43)).map fun granted =>
        { s with
          map := { s.map with
            bins := Function.update s.map.bins i { bin with keyRest := granted.2 } }
          heap := { granted.1 with mem := granted.1.mem.store granted.2 (key.drop 43) } }
  else some { s with map := { s.map with bins := Function.update s.map.bins i bin } }

/-- `copy_key` with the flags of a bin that is taken. -/
def takeBin (s : StrMapState) (key : List UInt8) (i : Nat) : Option StrMapState :=
  (copyKey A s key i).map fun s =>
    { s with map := { s.map with
        bins := Function.update s.map.bins i { s.map.bins i with used := true, next := none } } }

/-- `while ((cursor > 0) && (GET_BIN_AT(map, cursor)->used)) cursor--;` -/
def freeBin (map : StrMap) : (cursor : Nat) → Nat
  | 0 => 0
  | cursor + 1 => if (map.bins (cursor + 1)).used then freeBin map cursor else cursor + 1

/-- The bin that holds the key: the home bin, or one that its links lead to. The outer `none` is a
walk over more than `cap_total` links. -/
def findBin (s : StrMapState) (key : List UInt8) : Option (Option Nat) :=
  let home := s.map.home key
  if (s.map.bins home).used then
    follow s.map.next (fun i => checkKey s.heap key (s.map.bins i)) (s.map.capTotal + 1) home
  else some none

/-- `VD__GET_BIN_FLAGS_SET_UNUSED` on the bin that was found. -/
def unuseBin (s : StrMapState) (i : Nat) : StrMapState :=
  let bin := s.map.bins i
  { s with
    map := { s.map with bins := Function.update s.map.bins i { bin with used := false } }
    freed := if bin.keyRest = 0 then s.freed
      else s.freed ++ [(bin.keyRest, (43 + 2 ^ 64 - bin.keyLen) % 2 ^ 64)] }

/-- `vd__strmap_get_bin`, with the flags `create` and `setUnused`. -/
def strmapGetBin (s : StrMapState) (key : List UInt8) (create setUnused : Bool) :
    Option (StrMapState × Option Nat) :=
  (findBin s key).bind fun
    | some i => some (if setUnused then unuseBin s i else s, some i)
    | none =>
      if ¬ create then some (s, none)
      else
        let home := s.map.home key
        if ¬ (s.map.bins home).used then (takeBin A s key home).map fun s => (s, some home)
        else
          let cursor := freeBin s.map s.map.capTotal
          if cursor = 0 then some (s, none)
          else (takeBin A s key cursor).map fun s => (s, some cursor)

/-- `vd__strmap_set`. -/
def strmapSet (s : StrMapState) (key value : List UInt8) : Option (StrMapState × Bool) :=
  (strmapGetBin A s key true false).map fun
    | (s, none) => (s, false)
    | (s, some i) =>
      ({ s with map := { s.map with
          bins := Function.update s.map.bins i { s.map.bins i with value := value } } }, true)

/-- `vd__strmap_get`: the value, or `none` for a return of false. -/
def strmapGet (s : StrMapState) (key : List UInt8) : Option (Option (List UInt8)) :=
  (strmapGetBin A s key false false).map fun found =>
    found.2.map fun i => (found.1.map.bins i).value

/-- `VD_STRMAP_DEL`. -/
def strmapDel (s : StrMapState) (key : List UInt8) : Option (StrMapState × Bool) :=
  (strmapGetBin A s key false true).map fun found => (found.1, found.2.isSome)

end Operations

/-! ### The capacity -/

/-- **The bins that keys hash to** are bins of the table, and there is one from capacity 2 on. -/
theorem reducedCap_bounds {capTotal : Nat} (two : 2 ≤ capTotal) :
    0 < reducedCap capTotal ∧ reducedCap capTotal ≤ capTotal := by
  have low := Float.le_roundSignificand (n := capTotal)
  have high := Float.roundSignificand_le (n := capTotal)
  have low' := Float.le_roundSignificand (n := Float.roundSignificand capTotal * loadFactor)
  have high' := Float.roundSignificand_le (n := Float.roundSignificand capTotal * loadFactor)
  unfold reducedCap
  rw [loadFactor] at *
  constructor
  · refine Nat.div_pos ?_ (Nat.pow_pos Nat.two_pos)
    omega
  · refine Nat.div_le_of_le_mul ?_
    omega

end Vaudou
