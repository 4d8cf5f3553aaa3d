/-
**The dynamic arrays of `array.h`.**

An array is a pointer to its first element; its header, with the length, the capacity and the
allocator, is in the 24 bytes in front. `block` is what the allocator granted last, and every access is
checked against it: `none` is an access outside of it, an allocator that is none, or a request that is
refused. Sizes are naturals: no product of a capacity and an element size wraps.
-/

import Vaudou.Foundation.Memory
import Vaudou.Foundation.Run

namespace Vaudou

open Vaudou.Memory Vaudou.Run

/-- The allocation procedure, the address of its `VD_Allocator`, and `sizeof(*(a))`. -/
structure ArrayEnv where
  alloc : Realloc
  address : Nat
  tsize : Nat

/-- The memory, the pointer, the block that it points into, and what `VD_ARRAY_POP` returned so far. -/
structure ArrayState where
  mem : Mem
  a : Nat
  block : Nat × Nat
  popped : List (List UInt8)

/-- `sizeof(VD_ArrayHeader)`. -/
def arrayHeaderSize : Nat := 24

/-- The `n` bytes at `p` are in the block. -/
def ArrayState.InBlock (s : ArrayState) (p n : Nat) : Prop :=
  s.block.1 ≤ p ∧ p + n ≤ s.block.1 + s.block.2

instance (s : ArrayState) (p n : Nat) : Decidable (s.InBlock p n) :=
  inferInstanceAs (Decidable (_ ∧ _))

/-- Read bytes of the block. -/
def ArrayState.read (s : ArrayState) (p n : Nat) : Option (List UInt8) :=
  if s.InBlock p n then some (s.mem.load p n) else none

/-- Write bytes of the block. -/
def ArrayState.write (s : ArrayState) (p : Nat) (bytes : List UInt8) : Option ArrayState :=
  if s.InBlock p bytes.length then some { s with mem := s.mem.store p bytes } else none

/-- A field of the header, `k` bytes in; 0 of a null pointer. -/
def ArrayState.header (s : ArrayState) (k : Nat) : Option Nat :=
  if s.a = 0 then some 0 else (s.read (s.a - arrayHeaderSize + k) 8).map leValue

/-- `VD_ARRAY_LEN`. -/
def arrayLen (s : ArrayState) : Option Nat := s.header 0

/-- `VD_ARRAY_CAP`. -/
def arrayCap (s : ArrayState) : Option Nat := s.header 8

/-- `VD_ARRAY_ALC`. -/
def arrayAlc (s : ArrayState) : Option Nat := s.header 16

/-- `VD_ARRAY_HEADER(a)->len = len`. -/
def arraySetLen (s : ArrayState) (len : Nat) : Option ArrayState :=
  s.write (s.a - arrayHeaderSize) (leBytes 8 len)

/-- The new capacity for at least `mincap` elements. -/
def growCap (cap mincap : Nat) : Nat :=
  if mincap < 2 * cap then 2 * cap else if mincap < 4 then 4 else mincap

section Operations

variable (E : ArrayEnv)

/-- The part of `vd_array_grow` behind the early return. -/
def arrayMove (s : ArrayState) (cap newcap allocator : Nat) : Option ArrayState :=
  if allocator ≠ E.address then none
  else
    (E.alloc.realloc s.mem (if s.a = 0 then 0 else s.a - arrayHeaderSize)
        (if cap = 0 then 0 else E.tsize * cap + arrayHeaderSize)
        (E.tsize * newcap + arrayHeaderSize)).bind fun granted =>
      let b : ArrayState := ⟨granted.2, granted.1 + arrayHeaderSize,
        (granted.1, E.tsize * newcap + arrayHeaderSize), s.popped⟩
      let started := if s.a = 0 then
          (b.write granted.1 (leBytes 8 0)).bind fun b => b.write (granted.1 + 16) (leBytes 8 allocator)
        else some b
      started.bind fun b => b.write (granted.1 + 8) (leBytes 8 newcap)

/-- `vd_array_grow`. -/
def arrayGrow (s : ArrayState) (addlen mincap allocator : Nat) : Option ArrayState :=
  (arrayLen s).bind fun len => (arrayCap s).bind fun cap =>
    let minLen := len + addlen
    let mincap := if mincap < minLen then minLen else mincap
    if mincap ≤ cap then some s else arrayMove E s cap (growCap cap mincap) allocator

/-- `VD_ARRAY_CHECK_GROW`. -/
def arrayCheckGrow (s : ArrayState) (n : Nat) : Option ArrayState :=
  (arrayLen s).bind fun len => (arrayCap s).bind fun cap =>
    if s.a = 0 ∨ cap < len + n then (arrayAlc s).bind fun allocator => arrayGrow E s n 0 allocator
    else some s

/-- `VD_ARRAY_INIT`. -/
def arrayInit (s : ArrayState) : Option ArrayState := arrayGrow E s 1 0 E.address

/-- `&(a)[i]`. -/
def ArrayState.item (s : ArrayState) (i : Nat) : Nat := s.a + E.tsize * i

/-- `VD_ARRAY_ADDN`, and the new elements are written. -/
def arrayAddn (s : ArrayState) (items : List (List UInt8)) : Option ArrayState :=
  (arrayCheckGrow E s items.length).bind fun s => (arrayLen s).bind fun len =>
    (arraySetLen s (len + items.length)).bind fun s => s.write (s.item E len) items.flatten

/-- `VD_ARRAY_ADD`, and `VD_ARRAY_ADDP` with a write to the element. -/
def arrayAdd (s : ArrayState) (v : List UInt8) : Option ArrayState :=
  (arrayCheckGrow E s 1).bind fun s => (arrayLen s).bind fun len =>
    (arraySetLen s (len + 1)).bind fun s => s.write (s.item E len) v

/-- `VD_ARRAY_POP`. -/
def arrayPop (s : ArrayState) : Option ArrayState :=
  (arrayLen s).bind fun len => (arraySetLen s (len - 1)).bind fun s =>
    (s.read (s.item E (len - 1)) E.tsize).map fun v => { s with popped := s.popped ++ [v] }

/-- `VD_ARRAY_DELN`. -/
def arrayDeln (s : ArrayState) (i n : Nat) : Option ArrayState :=
  (arrayLen s).bind fun len =>
    (s.read (s.item E (i + n)) (E.tsize * (len - n - i))).bind fun moved =>
      (s.write (s.item E i) moved).bind fun s => arraySetLen s (len - n)

/-- `VD_ARRAY_DELSWAP`. -/
def arrayDelswap (s : ArrayState) (i : Nat) : Option ArrayState :=
  (arrayLen s).bind fun len => (s.read (s.item E (len - 1)) E.tsize).bind fun last =>
    (s.write (s.item E i) last).bind fun s => arraySetLen s (len - 1)

end Operations

/-- The operations on an array. -/
inductive ArrayOp where
  | init
  | add (v : List UInt8)
  | addp (v : List UInt8)
  | addn (items : List (List UInt8))
  | pop
  | del (i : Nat)
  | deln (i n : Nat)
  | delswap (i : Nat)
  | clear

/-- An operation. -/
def arrayStep (E : ArrayEnv) (s : ArrayState) : ArrayOp → Option ArrayState
  | .init => arrayInit E s
  | .add v => arrayAdd E s v
  | .addp v => arrayAdd E s v
  | .addn items => arrayAddn E s items
  | .pop => arrayPop E s
  | .del i => arrayDeln E s i 1
  | .deln i n => arrayDeln E s i n
  | .delswap i => arrayDelswap E s i
  | .clear => arraySetLen s 0

/-- Initialise a null pointer and perform the operations. -/
def arrayRun (E : ArrayEnv) (mem : Mem) (ops : List ArrayOp) : Option ArrayState :=
  (arrayInit E ⟨mem, 0, (0, 0), []⟩).bind fun s => run (arrayStep E) s ops

end Vaudou
