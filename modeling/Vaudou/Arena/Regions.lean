/-
**The regions that an arena hands out.**

`vd_arena_alloc` compares the padding with the room that is left, and not the size: a request that is
larger than the room is granted, and zeroed past the end.

* `arenaRun_lawful` — every region of a run is aligned, inside the arena and apart from the others if and
  only if no request is larger than the room behind its padding.
-/

import Vaudou.Arena.Alloc
import Vaudou.Foundation.Run

namespace Vaudou

open Vaudou.Memory Vaudou.Run

/-- `vd_arena_new`; `none` is an allocator that fails. -/
def arenaNew (allocator : Realloc) (mem : Mem) (size : Nat) : Option (Mem × Arena) :=
  (allocator.realloc mem 0 0 size).map fun granted =>
    (granted.2, ⟨granted.1, granted.1, (granted.1 + size) % 2 ^ 64⟩)

/-- `vd_arena_reset`. -/
def arenaReset (arena : Arena) : Arena := { arena with begin := arena.data }

/-- Two regions, each an address and a size, do not overlap. -/
def Apart (r r' : Nat × Nat) : Prop := r.1 + r.2 ≤ r'.1 ∨ r'.1 + r'.2 ≤ r.1

/-! ### Padding -/

section Padding

variable {arena : Arena} {size align : Nat}

variable (arena) in
/-- **The padding** leads to the next multiple of a power of two. -/
theorem Arena.padding_spec (power : ∃ k, align = 2 ^ k) (small : align ≤ 2 ^ 64)
    (word : arena.begin ≤ 2 ^ 64) :
    align ∣ arena.begin + arena.padding align ∧ arena.padding align < align := by
  obtain ⟨k, rfl⟩ := power
  have exponent : k ≤ 64 := (Nat.pow_le_pow_iff_right (by decide)).mp small
  have divides : 2 ^ k ∣ 2 ^ 64 := Nat.pow_dvd_pow 2 exponent
  have same : arena.padding (2 ^ k) = (2 ^ 64 - arena.begin) % 2 ^ k := by
    rw [Arena.padding, Nat.and_two_pow_sub_one_eq_mod, Nat.mod_mod_of_dvd _ divides]
  rw [same]
  refine ⟨Nat.dvd_of_mod_eq_zero ?_, Nat.mod_lt _ (Nat.two_pow_pos k)⟩
  rw [Nat.add_mod_mod, Nat.add_sub_cancel' word]
  exact Nat.mod_eq_zero_of_dvd divides

/-- **A request**, where no address wraps: it is refused if the padding passes the end. -/
theorem arenaAlloc_eq (mem : Mem) (below : arena.begin ≤ arena.endAddr)
    (fits : arena.endAddr + size + align ≤ 2 ^ 63) (padding : arena.padding align < align) :
    arenaAlloc mem arena size align =
      if arena.endAddr < arena.begin + arena.padding align then (mem, arena, 0)
      else (mem.store (arena.begin + arena.padding align) (List.replicate size 0),
        { arena with begin := arena.begin + arena.padding align + size },
        arena.begin + arena.padding align) := by
  have available : ptrdiff ((arena.endAddr : Int) - arena.begin - arena.padding align) =
      (arena.endAddr : Int) - arena.begin - arena.padding align :=
    Int.bmod_eq_of_le (by omega) (by omega)
  simp only [arenaAlloc, available]
  by_cases past : arena.endAddr < arena.begin + arena.padding align
  · rw [if_pos past, if_pos (by omega)]
  · rw [if_neg past, if_neg (by omega), Nat.mod_eq_of_lt (by omega), Nat.mod_eq_of_lt (by omega)]

end Padding

/-! ### Runs -/

/-- The memory, the arena, and the regions handed out since the last reset. -/
structure ArenaState where
  mem : Mem
  arena : Arena
  regions : List (Nat × Nat)

/-- The calls on an arena. -/
inductive ArenaOp where
  | alloc (size align : Nat)
  | reset

/-- A call. -/
def arenaStep (s : ArenaState) : ArenaOp → Option ArenaState
  | .alloc size align =>
    let result := arenaAlloc s.mem s.arena size align
    some ⟨result.1, result.2.1, if result.2.2 = 0 then s.regions else (result.2.2, size) :: s.regions⟩
  | .reset => some { s with arena := arenaReset s.arena, regions := [] }

/-- The alignment is a power of two, and no address wraps. -/
def ArenaOp.Fits (endAddr : Nat) : ArenaOp → Prop
  | .alloc size align => (∃ k, align = 2 ^ k) ∧ endAddr + size + align ≤ 2 ^ 63
  | .reset => True

/-- **What a call returns is aligned, inside the arena, and apart from the regions handed out since the
last reset**, and nothing outside the arena is written. -/
def Lawful (s : ArenaState) : ArenaOp → Prop
  | .alloc size align =>
    let result := arenaAlloc s.mem s.arena size align
    (result.2.2 ≠ 0 → align ∣ result.2.2 ∧ s.arena.data ≤ result.2.2 ∧
      result.2.2 + size ≤ s.arena.endAddr ∧ ∀ region ∈ s.regions, Apart (result.2.2, size) region) ∧
    ChangedWithin s.mem result.1 s.arena.data (s.arena.endAddr - s.arena.data)
  | .reset => True

/-- A request whose padding fits has room for its size. -/
def HasRoom (s : ArenaState) : ArenaOp → Prop
  | .alloc size align => s.arena.begin + s.arena.padding align ≤ s.arena.endAddr →
      s.arena.begin + s.arena.padding align + size ≤ s.arena.endAddr
  | .reset => True

instance (s : ArenaState) : ∀ op, Decidable (HasRoom s op)
  | .alloc _ _ => inferInstanceAs (Decidable (_ → _))
  | .reset => inferInstanceAs (Decidable True)

/-- The arena from `data` to `endAddr` is not null, and its regions are below `begin`. -/
structure ArenaState.Sound (s : ArenaState) (data endAddr : Nat) : Prop where
  data_eq : s.arena.data = data
  end_eq : s.arena.endAddr = endAddr
  nonnull : 0 < data
  low : data ≤ s.arena.begin
  high : s.arena.begin ≤ endAddr
  below : ∀ region ∈ s.regions, region.1 + region.2 ≤ s.arena.begin

section Runs

variable {s s' : ArenaState} {data endAddr : Nat} {op : ArenaOp}

/-- **One call is lawful** exactly if it has room. -/
theorem lawful_iff (sound : s.Sound data endAddr) (fits : op.Fits endAddr) :
    Lawful s op ↔ HasRoom s op := by
  cases op with
  | reset => exact Iff.rfl
  | alloc size align =>
    obtain ⟨power, wraps⟩ := fits
    have low := sound.low
    have high := sound.high
    rw [← sound.end_eq] at wraps high
    rw [← sound.data_eq] at low
    have nonnull := sound.nonnull
    rw [← sound.data_eq] at nonnull
    obtain ⟨divides, padding⟩ := s.arena.padding_spec power (by omega) (by omega)
    rw [Lawful, HasRoom, arenaAlloc_eq s.mem high wraps padding]
    by_cases past : s.arena.endAddr < s.arena.begin + s.arena.padding align
    · rw [if_pos past]
      exact iff_of_true ⟨fun nonzero => absurd rfl nonzero, ChangedWithin.refl _ _ _⟩
        (fun fits => absurd fits (Nat.not_le.mpr past))
    · rw [if_neg past]
      constructor
      · rintro ⟨lawful, -⟩ -
        exact (lawful (by show s.arena.begin + s.arena.padding align ≠ 0; omega)).2.2.1
      · intro room
        have inside := room (Nat.not_lt.mp past)
        refine ⟨fun _ => ⟨divides, low.trans (Nat.le_add_right _ _), inside, fun region member => ?_⟩,
          ?_⟩
        · exact Or.inr ((sound.below region member).trans (Nat.le_add_right _ _))
        · refine (store_changedWithin _ _ _).widen (low.trans (Nat.le_add_right _ _)) ?_
          rw [List.length_replicate]
          omega

/-- **One call that has room** keeps the arena sound. -/
theorem arenaStep_sound (sound : s.Sound data endAddr) (fits : op.Fits endAddr) (room : HasRoom s op)
    (stepped : arenaStep s op = some s') : s'.Sound data endAddr := by
  cases op with
  | reset =>
    cases stepped
    refine ⟨sound.data_eq, sound.end_eq, sound.nonnull, sound.data_eq.ge, ?_, fun region member => ?_⟩
    · exact sound.data_eq.le.trans (sound.low.trans sound.high)
    · cases member
  | alloc size align =>
    obtain ⟨power, wraps⟩ := fits
    have low := sound.low
    have high := sound.high
    rw [← sound.end_eq] at wraps high
    obtain ⟨-, padding⟩ := s.arena.padding_spec power (by omega) (by omega)
    rw [arenaStep, arenaAlloc_eq s.mem high wraps padding] at stepped
    by_cases past : s.arena.endAddr < s.arena.begin + s.arena.padding align
    · rw [if_pos past] at stepped
      cases stepped
      exact ⟨sound.data_eq, sound.end_eq, sound.nonnull, sound.low, sound.high, sound.below⟩
    · rw [if_neg past] at stepped
      have inside := room (Nat.not_lt.mp past)
      have nonzero : ¬ s.arena.begin + s.arena.padding align = 0 := by
        have nonnull := sound.nonnull
        omega
      cases stepped
      refine ⟨sound.data_eq, sound.end_eq, sound.nonnull, ?_, ?_, fun region member => ?_⟩
      · show data ≤ s.arena.begin + s.arena.padding align + size
        omega
      · rw [sound.end_eq] at inside
        exact inside
      · change region ∈ (if s.arena.begin + s.arena.padding align = 0 then s.regions else _) at member
        rw [if_neg nonzero] at member
        show region.1 + region.2 ≤ s.arena.begin + s.arena.padding align + size
        rcases List.mem_cons.mp member with rfl | older
        · exact le_rfl
        · have before := sound.below region older
          omega

/-- **The regions of an arena.** In every run of requests and resets on a new arena in which no address
wraps, every result is lawful if and only if every request whose padding fits has room for its size. -/
theorem arenaRun_lawful (allocator : Realloc) {mem mem' : Mem} {size : Nat} {arena : Arena}
    (made : arenaNew allocator mem size = some (mem', arena)) (ops : List ArenaOp)
    (fits : ∀ op ∈ ops, op.Fits arena.endAddr) :
    Along arenaStep Lawful ⟨mem', arena, []⟩ ops ↔ Along arenaStep HasRoom ⟨mem', arena, []⟩ ops := by
  obtain ⟨⟨block, m⟩, granted, same⟩ := Option.map_eq_some_iff.mp made
  obtain ⟨rfl, rfl⟩ := Prod.mk.inj same
  obtain ⟨nonnull, bounded⟩ := allocator.bounded granted
  have word : (block + size) % 2 ^ 64 = block + size := Nat.mod_eq_of_lt (by omega)
  refine along_congr (I := fun s => s.Sound block ((block + size) % 2 ^ 64))
    (fun s op member sound => lawful_iff sound (fits op member))
    (fun s op member s' sound room stepped => arenaStep_sound sound (fits op member) room stepped)
    ⟨rfl, rfl, nonnull, le_rfl, ?_, fun region member => nomatch member⟩
  rw [word]
  exact Nat.le_add_right _ _

/-- The arena of 64 bytes at 8. -/
def smallArena : Arena := ⟨8, 8, 72⟩

/-- The last request before the reset just does not fit. -/
theorem arenaRun_lawful_small : arenaNew Realloc.single (fun _ => 0) 64 =
      some (Mem.store (fun _ => 0) 8 [], smallArena) ∧
    Along arenaStep Lawful ⟨Mem.store (fun _ => 0) 8 [], smallArena, []⟩
      [.alloc 10 16, .alloc 40 8, .alloc 1 32, .reset, .alloc 64 4] := by
  have made : arenaNew Realloc.single (fun _ => 0) 64 =
      some (Mem.store (fun _ => 0) 8 [], smallArena) := rfl
  refine ⟨made, (arenaRun_lawful Realloc.single made _ ?_).mpr (by decide +kernel)⟩
  intro op member
  simp only [List.mem_cons, List.not_mem_nil, or_false] at member
  rcases member with rfl | rfl | rfl | rfl | rfl
  · exact ⟨⟨4, rfl⟩, by decide⟩
  · exact ⟨⟨3, rfl⟩, by decide⟩
  · exact ⟨⟨5, rfl⟩, by decide⟩
  · trivial
  · exact ⟨⟨2, rfl⟩, by decide⟩

/-- **A region past the end**: 100 bytes are granted in an arena of 64. -/
theorem large_request_granted :
    ¬ ∀ (allocator : Realloc) (mem mem' : Mem) (size : Nat) (arena : Arena),
      arenaNew allocator mem size = some (mem', arena) → ∀ ops : List ArenaOp,
        (∀ op ∈ ops, op.Fits arena.endAddr) → Along arenaStep Lawful ⟨mem', arena, []⟩ ops := by
  intro claimed
  have made : arenaNew Realloc.single (fun _ => 0) 64 =
      some (Mem.store (fun _ => 0) 8 [], smallArena) := rfl
  have lawful := claimed Realloc.single _ _ 64 smallArena made [.alloc 100 8] fun op member => by
    rw [List.mem_singleton.mp member]
    exact ⟨⟨3, rfl⟩, by decide⟩
  have inside : 8 + 100 ≤ 72 := (lawful.1.1 (by decide)).2.2.1
  omega

end Runs

end Vaudou
