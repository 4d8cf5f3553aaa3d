/-
**The bump allocator of `arena.h`.**

An arena is the region from `data` to its end; `begin` moves up. A request is refused only if `begin`
and its padding are past the end: the size itself is not compared with the room.

* `arenaAlloc_room`: a request that has room is granted at the padded `begin`, and zeroed.
-/

import Vaudou.Foundation.Memory

namespace Vaudou

open Vaudou.Memory

/-- `VD_Arena`. -/
structure Arena where
  data : Nat
  begin : Nat
  endAddr : Nat
deriving DecidableEq, Repr

/-- The bytes up to the next multiple of `align`: `-(uintptr_t)arena->begin & (align - 1)`. -/
def Arena.padding (arena : Arena) (align : Nat) : Nat :=
  (2 ^ 64 - arena.begin) % 2 ^ 64 &&& (align - 1)

/-- The difference of two addresses as a `ptrdiff_t`. -/
def ptrdiff (value : Int) : Int := Int.bmod value (2 ^ 64)

/-- `vd_arena_alloc`. The result 0 is null. -/
def arenaAlloc (mem : Mem) (arena : Arena) (size align : Nat) : Mem × Arena × Nat :=
  let padding := arena.padding align
  let available := ptrdiff ((arena.endAddr : Int) - arena.begin - padding)
  if available < 0 then (mem, arena, 0)
  else
    let p := (arena.begin + padding) % 2 ^ 64
    (mem.store p (List.replicate size 0),
      { arena with begin := (arena.begin + padding + size) % 2 ^ 64 }, p)

/-- A request has room in an arena that is not null and ends below half of the address space. -/
structure Arena.Room (arena : Arena) (size align : Nat) : Prop where
  nonnull : 0 < arena.begin
  fits : arena.begin + arena.padding align + size ≤ arena.endAddr
  bounded : arena.endAddr < 2 ^ 63

instance (arena : Arena) (size align : Nat) : Decidable (arena.Room size align) :=
  decidable_of_iff (0 < arena.begin ∧ arena.begin + arena.padding align + size ≤ arena.endAddr ∧
    arena.endAddr < 2 ^ 63) ⟨fun room => ⟨room.1, room.2.1, room.2.2⟩,
      fun room => ⟨room.nonnull, room.fits, room.bounded⟩⟩

/-- **A request that has room is granted** at the padded `begin`, and zeroed. -/
theorem arenaAlloc_room {arena : Arena} {size align : Nat} (mem : Mem)
    (room : arena.Room size align) :
    arenaAlloc mem arena size align =
      (mem.store (arena.begin + arena.padding align) (List.replicate size 0),
        { arena with begin := arena.begin + arena.padding align + size },
        arena.begin + arena.padding align) := by
  obtain ⟨-, fits, bounded⟩ := room
  have available : ptrdiff ((arena.endAddr : Int) - arena.begin - arena.padding align) =
      (arena.endAddr : Int) - arena.begin - arena.padding align :=
    Int.bmod_eq_of_le (by omega) (by omega)
  have nonneg : ¬ (arena.endAddr : Int) - arena.begin - arena.padding align < 0 := by omega
  simp only [arenaAlloc, available, if_neg nonneg]
  rw [Nat.mod_eq_of_lt (by omega), Nat.mod_eq_of_lt (by omega)]

end Vaudou
