/-
**Resizing a block of an arena: `vd_arena_proc_alloc`.**

The procedure takes a new region and copies the old block into it, `prevsize` bytes whatever the new
size is.

* `arenaProcRun_filled`, `ArenaState.Filled.resized` — after any run on a new arena, the contract of a
  resize holds exactly if the block does not shrink.
-/

import Vaudou.Arena.Regions
import Vaudou.Foundation.Resizing

namespace Vaudou

open Vaudou.Memory Vaudou.Run

/-- `vd_arena_proc_alloc`. -/
def arenaProcAlloc (mem : Mem) (arena : Arena) (ptr prevsize newsize : Nat) : Mem × Arena × Nat :=
  if newsize = 0 then (mem, arena, 0)
  else
    let granted := arenaAlloc mem arena newsize 8
    if granted.2.2 = 0 then granted
    else if ptr ≠ 0 then (granted.1.store granted.2.2 (granted.1.load ptr prevsize), granted.2)
    else granted

/-- The `memset` and the `memcpy` of the call. -/
def arenaProcStores (mem : Mem) (arena : Arena) (ptr prevsize newsize : Nat) : Stores :=
  let granted := arenaAlloc mem arena newsize 8
  if newsize = 0 ∨ granted.2.2 = 0 then []
  else [(granted.2.2, List.replicate newsize 0)] ++
    if ptr ≠ 0 then [(granted.2.2, granted.1.load ptr prevsize)] else []

/-- The calls on an arena, and the writes of its users. -/
inductive ArenaProcOp where
  | call (op : ArenaOp)
  | proc (ptr prevsize newsize : Nat)
  | write (mem : Mem)

/-- A call. -/
def arenaProcStep (s : ArenaState) : ArenaProcOp → Option ArenaState
  | .call op => arenaStep s op
  | .proc ptr prevsize newsize =>
    let result := arenaProcAlloc s.mem s.arena ptr prevsize newsize
    some ⟨result.1, result.2.1, if result.2.2 = 0 then s.regions else (result.2.2, newsize) :: s.regions⟩
  | .write mem => some { s with mem := mem }

/-- Alignments are powers of two, and no address and no difference of two wraps. -/
def ArenaProcOp.Fits (endAddr : Nat) : ArenaProcOp → Prop
  | .call (.alloc size align) => (∃ k, align = 2 ^ k) ∧ endAddr + size + align ≤ 2 ^ 62
  | .proc _ _ newsize => endAddr + newsize + 8 ≤ 2 ^ 62
  | .call .reset | .write _ => True

/-- The regions are behind `data` and below `begin`, which may be past the end. -/
structure ArenaState.Filled (s : ArenaState) (data endAddr : Nat) : Prop where
  data_eq : s.arena.data = data
  end_eq : s.arena.endAddr = endAddr
  nonnull : 0 < data
  low : data ≤ s.arena.begin
  high : s.arena.begin ≤ 2 ^ 62
  inside : ∀ region ∈ s.regions, data ≤ region.1 ∧ region.1 + region.2 ≤ s.arena.begin

section Calls

variable {s s' : ArenaState} {data endAddr size align : Nat}

/-- **A request** on an arena whose `begin` may be past the end. -/
theorem ArenaState.Filled.alloc_eq (filled : s.Filled data endAddr) (power : ∃ k, align = 2 ^ k)
    (fits : endAddr + size + align ≤ 2 ^ 62) (mem : Mem) :
    arenaAlloc mem s.arena size align =
      if endAddr < s.arena.begin + s.arena.padding align then (mem, s.arena, 0)
      else (mem.store (s.arena.begin + s.arena.padding align) (List.replicate size 0),
        { s.arena with begin := s.arena.begin + s.arena.padding align + size },
        s.arena.begin + s.arena.padding align) := by
  have high := filled.high
  have ends := filled.end_eq
  obtain ⟨-, padding⟩ := s.arena.padding_spec power (by omega) (by omega)
  have available : ptrdiff ((s.arena.endAddr : Int) - s.arena.begin - s.arena.padding align) =
      (s.arena.endAddr : Int) - s.arena.begin - s.arena.padding align :=
    Int.bmod_eq_of_le (by omega) (by omega)
  simp only [arenaAlloc, available]
  by_cases past : endAddr < s.arena.begin + s.arena.padding align
  · rw [if_pos past, if_pos (by omega)]
  · rw [if_neg past, if_neg (by omega), Nat.mod_eq_of_lt (by omega), Nat.mod_eq_of_lt (by omega)]

/-- The state after a request, whatever else is written. -/
theorem ArenaState.Filled.granted (filled : s.Filled data endAddr) (power : ∃ k, align = 2 ^ k)
    (fits : endAddr + size + align ≤ 2 ^ 62) (mem m : Mem) :
    ArenaState.Filled ⟨m, (arenaAlloc mem s.arena size align).2.1,
      if (arenaAlloc mem s.arena size align).2.2 = 0 then s.regions
      else ((arenaAlloc mem s.arena size align).2.2, size) :: s.regions⟩ data endAddr := by
  rw [filled.alloc_eq power fits]
  have low := filled.low
  have nonnull := filled.nonnull
  by_cases past : endAddr < s.arena.begin + s.arena.padding align
  · rw [if_pos past, if_pos rfl]
    exact ⟨filled.data_eq, filled.end_eq, filled.nonnull, filled.low, filled.high, filled.inside⟩
  · rw [if_neg past, if_neg (by show ¬ s.arena.begin + s.arena.padding align = 0; omega)]
    refine ⟨filled.data_eq, filled.end_eq, nonnull, ?_, ?_, fun region member => ?_⟩
    · show data ≤ s.arena.begin + s.arena.padding align + size
      omega
    · show s.arena.begin + s.arena.padding align + size ≤ 2 ^ 62
      omega
    · show data ≤ region.1 ∧ region.1 + region.2 ≤ s.arena.begin + s.arena.padding align + size
      rcases List.mem_cons.mp member with rfl | older
      · exact ⟨by show data ≤ s.arena.begin + _; omega, le_rfl⟩
      · have before := filled.inside region older
        omega

/-- **A call of the procedure** hands out what a request for an alignment of 8 does. -/
theorem arenaProcAlloc_alloc (mem : Mem) (arena : Arena) (ptr prevsize : Nat) {newsize : Nat}
    (nonzero : newsize ≠ 0) :
    (arenaProcAlloc mem arena ptr prevsize newsize).2 = (arenaAlloc mem arena newsize 8).2 := by
  rw [arenaProcAlloc, if_neg nonzero]
  dsimp only
  split
  · rfl
  · split
    · rfl
    · rfl

/-- **One call** keeps the arena filled. -/
theorem arenaProcStep_filled {op : ArenaProcOp} (filled : s.Filled data endAddr) (fits : op.Fits endAddr)
    (stepped : arenaProcStep s op = some s') : s'.Filled data endAddr := by
  cases op with
  | call op =>
    cases op with
    | alloc size align =>
      cases stepped
      exact filled.granted fits.1 fits.2 s.mem _
    | reset =>
      cases stepped
      refine ⟨filled.data_eq, filled.end_eq, filled.nonnull, filled.data_eq.ge, ?_,
        fun region member => ?_⟩
      · exact filled.data_eq.le.trans (filled.low.trans filled.high)
      · cases member
  | proc ptr prevsize newsize =>
    cases stepped
    by_cases zero : newsize = 0
    · rw [arenaProcAlloc, if_pos zero, if_pos rfl]
      exact ⟨filled.data_eq, filled.end_eq, filled.nonnull, filled.low, filled.high, filled.inside⟩
    · rw [arenaProcAlloc_alloc s.mem s.arena ptr prevsize zero]
      exact filled.granted ⟨3, rfl⟩ fits s.mem _
  | write mem =>
    cases stepped
    exact ⟨filled.data_eq, filled.end_eq, filled.nonnull, filled.low, filled.high, filled.inside⟩

/-- A call that succeeds writes what it says. -/
theorem arenaProcAlloc_stores {mem : Mem} {arena : Arena} {ptr prevsize newsize : Nat}
    (succeeds : (arenaProcAlloc mem arena ptr prevsize newsize).2.2 ≠ 0) :
    (arenaProcAlloc mem arena ptr prevsize newsize).1 =
      mem.stores (arenaProcStores mem arena ptr prevsize newsize) := by
  have nonzero : newsize ≠ 0 := by
    rintro rfl
    exact succeeds rfl
  rw [arenaProcAlloc_alloc mem arena ptr prevsize nonzero] at succeeds
  have granted : (arenaAlloc mem arena newsize 8).1 =
      mem.store (arenaAlloc mem arena newsize 8).2.2 (List.replicate newsize 0) := by
    unfold arenaAlloc at succeeds ⊢
    dsimp only at succeeds ⊢
    split
    · rename_i refused
      rw [if_pos refused] at succeeds
      exact absurd rfl succeeds
    · rfl
  rw [arenaProcAlloc, arenaProcStores]
  simp only [nonzero, succeeds, or_self, if_false]
  split
  · exact congrArg (Mem.store · _ _) granted
  · exact granted

/-- **The contract of a resize** on a filled arena. -/
theorem ArenaState.Filled.resized (filled : s.Filled data endAddr) {ptr prevsize newsize : Nat}
    (prior : (ptr, prevsize) ∈ s.regions) (nonzero : 0 < newsize)
    (fits : endAddr + newsize + 8 ≤ 2 ^ 62)
    (succeeds : (arenaProcAlloc s.mem s.arena ptr prevsize newsize).2.2 ≠ 0) :
    Resized s.mem (arenaProcAlloc s.mem s.arena ptr prevsize newsize).1
      (arenaProcStores s.mem s.arena ptr prevsize newsize) ptr prevsize
      (arenaProcAlloc s.mem s.arena ptr prevsize newsize).2.2 newsize ↔ prevsize ≤ newsize := by
  obtain ⟨low, below⟩ := filled.inside _ prior
  have nonnull := filled.nonnull
  have pointer : ptr ≠ 0 := by
    have : data ≤ ptr := low
    omega
  have power : ∃ k, 8 = 2 ^ k := ⟨3, rfl⟩
  have granted := filled.alloc_eq power fits s.mem
  rw [arenaProcAlloc_stores succeeds]
  rw [arenaProcAlloc_alloc s.mem s.arena ptr prevsize nonzero.ne'] at succeeds ⊢
  rw [arenaProcStores]
  simp only [nonzero.ne', succeeds, pointer, ne_eq, not_false_eq_true, if_true, if_false, or_self]
  rw [granted] at succeeds ⊢
  by_cases past : endAddr < s.arena.begin + s.arena.padding 8
  · rw [if_pos past] at succeeds
    exact absurd rfl succeeds
  · rw [if_neg past]
    refine resized_iff (fun w member x lowX highX => ?_) ?_
    · rw [List.mem_singleton.mp member] at lowX highX
      rw [List.length_replicate] at highX
      exact ⟨lowX, highX⟩
    · have change := store_changedWithin s.mem (s.arena.begin + s.arena.padding 8)
        (List.replicate newsize 0)
      refine load_congr (change.same (Or.inl ?_))
      exact le_trans below (Nat.le_add_right _ _)

/-- **A new arena stays filled** in every run in which no address wraps. -/
theorem arenaProcRun_filled (allocator : Realloc) {mem mem' : Mem} {arena : Arena}
    (made : arenaNew allocator mem size = some (mem', arena)) (small : arena.endAddr ≤ 2 ^ 62)
    {ops : List ArenaProcOp} (fits : ∀ op ∈ ops, op.Fits arena.endAddr)
    (ran : run arenaProcStep ⟨mem', arena, []⟩ ops = some s) : s.Filled arena.data arena.endAddr := by
  obtain ⟨⟨block, m⟩, granted, same⟩ := Option.map_eq_some_iff.mp made
  obtain ⟨nonnull, bounded⟩ := allocator.bounded granted
  obtain ⟨rfl, rfl⟩ := Prod.mk.inj same
  have word : (block + size) % 2 ^ 64 = block + size := Nat.mod_eq_of_lt (by omega)
  have start : ArenaState.Filled ⟨m, ⟨block, block, (block + size) % 2 ^ 64⟩, []⟩ block
      ((block + size) % 2 ^ 64) := by
    refine ⟨rfl, rfl, nonnull, le_rfl, ?_, fun region member => absurd member List.not_mem_nil⟩
    refine le_trans ?_ small
    show block ≤ (block + size) % 2 ^ 64
    rw [word]
    exact Nat.le_add_right _ _
  refine run_invariant_along (C := fun _ op => op.Fits ((block + size) % 2 ^ 64))
    (fun t op t' filled fits stepped => arenaProcStep_filled filled fits stepped) ran ?_ start
  refine along_iff.mpr fun before op after split t _ => fits op ?_
  rw [split]
  exact List.mem_append_right _ List.mem_cons_self

end Calls

end Vaudou
