/-
**The arena of several threads.**

A call of `vd_arena_alloc_t` reads `begin` for its padding and the check against the end, and later adds
the padding and the size to it; other threads' steps may come between the two. `added` counts what the
additions so far have put on `begin`.

* `threadRun_disjoint` — as long as the additions do not wrap, the regions of every interleaving are
  inside the arena and apart from one another.
-/

import Vaudou.Arena.Regions

namespace Vaudou

open Vaudou.Memory Vaudou.Run

/-- What a thread has after its first step: its size and the padding it computed. -/
structure PendingCall where
  size : Nat
  padding : Nat
deriving DecidableEq

/-- The memory and the arena, the calls between their two steps, and the regions handed out. -/
structure ThreadedArena where
  mem : Mem
  arena : Arena
  pending : Nat → Option PendingCall
  regions : List (Nat × Nat)
  added : Nat

/-- The steps of a call of `vd_arena_alloc_t` on a thread. -/
inductive ThreadStep where
  | read (thread size align : Nat)
  | add (thread : Nat)
deriving DecidableEq

/-- **The first step of `vd_arena_alloc_t`**: `begin` is read. The call returns null if the padding
passes the end. -/
def arenaRead (s : ThreadedArena) (thread size align : Nat) : ThreadedArena :=
  let padding := s.arena.padding align
  let available := ptrdiff ((s.arena.endAddr : Int) - s.arena.begin - padding)
  if available < 0 then s
  else { s with pending := Function.update s.pending thread (some ⟨size, padding⟩) }

/-- **The second step of `vd_arena_alloc_t`**: `vd_atomic_fetch_and_adduptr`, and the region is zeroed
and returned if it ends inside the arena. -/
def arenaFetchAndAdd (s : ThreadedArena) (thread : Nat) (call : PendingCall) : ThreadedArena :=
  let p := (s.arena.begin + call.padding) % 2 ^ 64
  let arena := { s.arena with begin := (s.arena.begin + (call.padding + call.size)) % 2 ^ 64 }
  let pending := Function.update s.pending thread none
  let added := s.added + (call.padding + call.size)
  if s.arena.endAddr < (p + call.size) % 2 ^ 64 then ⟨s.mem, arena, pending, s.regions, added⟩
  else ⟨s.mem.store p (List.replicate call.size 0), arena, pending,
    if p = 0 then s.regions else (p, call.size) :: s.regions, added⟩

/-- A step of a thread: a call starts when the thread is in none. -/
def threadStep (s : ThreadedArena) : ThreadStep → Option ThreadedArena
  | .read thread size align =>
    if s.pending thread = none then some (arenaRead s thread size align) else none
  | .add thread => (s.pending thread).map (arenaFetchAndAdd s thread)

/-- A new arena, and no thread in a call. -/
def ThreadedArena.start (mem : Mem) (arena : Arena) : ThreadedArena := ⟨mem, arena, fun _ => none, [], 0⟩

/-- **The regions are inside the arena and apart**, and nothing outside of it was written. -/
structure ThreadedArena.Disjoint (s : ThreadedArena) (mem : Mem) (arena : Arena) : Prop where
  inside : ∀ region ∈ s.regions, arena.data ≤ region.1 ∧ region.1 + region.2 ≤ arena.endAddr
  apart : s.regions.Pairwise Apart
  written : ChangedWithin mem s.mem arena.data (arena.endAddr - arena.data)

/-- The additions have not wrapped, and every region is below `begin`. -/
structure ThreadedArena.Sound (s : ThreadedArena) (mem : Mem) (arena : Arena) : Prop where
  data_eq : s.arena.data = arena.data
  end_eq : s.arena.endAddr = arena.endAddr
  begin_eq : s.arena.begin = arena.begin + s.added
  below : ∀ region ∈ s.regions, region.1 + region.2 ≤ s.arena.begin
  disjoint : s.Disjoint mem arena

section Steps

variable {s s' : ThreadedArena} {mem : Mem} {arena : Arena} {op : ThreadStep}

/-- `added` only grows. -/
theorem threadStep_added (stepped : threadStep s op = some s') : s.added ≤ s'.added := by
  cases op with
  | read thread size align =>
    obtain ⟨-, same⟩ := Option.ite_none_right_eq_some.mp stepped
    cases same
    rw [arenaRead]
    split <;> exact le_rfl
  | add thread =>
    obtain ⟨call, -, rfl⟩ := Option.map_eq_some_iff.mp stepped
    rw [arenaFetchAndAdd]
    split <;> exact Nat.le_add_right _ _

theorem arenaRead_sound (sound : s.Sound mem arena) (thread size align : Nat) :
    (arenaRead s thread size align).Sound mem arena := by
  rw [arenaRead]
  split
  · exact sound
  · exact ⟨sound.data_eq, sound.end_eq, sound.begin_eq, sound.below, sound.disjoint.inside,
      sound.disjoint.apart, sound.disjoint.written⟩

/-- **An addition that does not wrap** hands out the bytes behind the old `begin` and its padding. -/
theorem arenaFetchAndAdd_sound (sound : s.Sound mem arena) (nonnull : 0 < arena.data)
    (started : arena.data ≤ arena.begin) (bounded : arena.begin ≤ 2 ^ 63) (thread : Nat)
      (call : PendingCall)
    (small : s.added + (call.padding + call.size) < 2 ^ 62) :
    (arenaFetchAndAdd s thread call).Sound mem arena := by
  have begin_eq := sound.begin_eq
  have place : (s.arena.begin + call.padding) % 2 ^ 64 = s.arena.begin + call.padding :=
    Nat.mod_eq_of_lt (by omega)
  have next : (s.arena.begin + (call.padding + call.size)) % 2 ^ 64 =
      s.arena.begin + (call.padding + call.size) := Nat.mod_eq_of_lt (by omega)
  have ends : (s.arena.begin + call.padding + call.size) % 2 ^ 64 =
      s.arena.begin + call.padding + call.size := Nat.mod_eq_of_lt (by omega)
  have older : ∀ region ∈ s.regions,
      region.1 + region.2 ≤ s.arena.begin + (call.padding + call.size) := fun region member =>
    (sound.below region member).trans (Nat.le_add_right _ _)
  have moved : s.arena.begin + (call.padding + call.size) =
      arena.begin + (s.added + (call.padding + call.size)) := by
    rw [begin_eq, Nat.add_assoc]
  rw [arenaFetchAndAdd]
  have nonzero : ¬ s.arena.begin + call.padding = 0 := by omega
  simp only [place, next, ends, if_neg nonzero]
  by_cases past : s.arena.endAddr < s.arena.begin + call.padding + call.size
  · rw [if_pos past]
    exact ⟨sound.data_eq, sound.end_eq, moved, older, sound.disjoint.inside, sound.disjoint.apart,
      sound.disjoint.written⟩
  · rw [if_neg past]
    have end_eq := sound.end_eq
    have written := store_changedWithin s.mem (s.arena.begin + call.padding) (List.replicate call.size 0)
    rw [List.length_replicate] at written
    refine ⟨sound.data_eq, sound.end_eq, moved, fun region member => ?_, fun region member => ?_, ?_, ?_⟩
    · rcases List.mem_cons.mp member with rfl | member
      · exact (Nat.add_assoc _ _ _).le
      · exact older region member
    · rcases List.mem_cons.mp member with rfl | member
      · show arena.data ≤ s.arena.begin + call.padding ∧
          s.arena.begin + call.padding + call.size ≤ arena.endAddr
        omega
      · exact sound.disjoint.inside region member
    · refine List.pairwise_cons.mpr ⟨fun region member => ?_, sound.disjoint.apart⟩
      exact Or.inr ((sound.below region member).trans (Nat.le_add_right _ _))
    · exact sound.disjoint.written.trans (written.widen (by omega) (by omega))

/-- **One step.** -/
theorem threadStep_sound (sound : s.Sound mem arena) (nonnull : 0 < arena.data)
    (started : arena.data ≤ arena.begin) (bounded : arena.begin ≤ 2 ^ 63)
      (stepped : threadStep s op = some s') (small : s'.added < 2 ^ 62) :
    s'.Sound mem arena := by
  cases op with
  | read thread size align =>
    obtain ⟨-, same⟩ := Option.ite_none_right_eq_some.mp stepped
    cases same
    exact arenaRead_sound sound thread size align
  | add thread =>
    obtain ⟨call, -, rfl⟩ := Option.map_eq_some_iff.mp stepped
    refine arenaFetchAndAdd_sound sound nonnull started bounded thread call ?_
    rw [arenaFetchAndAdd] at small
    split at small <;> exact small

end Steps

/-! ### Interleavings -/

section Interleavings

/-- **Disjoint regions.** In every interleaving of calls of `vd_arena_alloc_t` on a new arena
whose paddings and sizes add up to less than `2 ^ 62`, the regions handed out are inside the arena
and apart. -/
theorem threadRun_disjoint (allocator : Realloc) {mem mem' : Mem} {size : Nat} {arena : Arena}
    (made : arenaNew allocator mem size = some (mem', arena)) (steps : List ThreadStep)
      {s : ThreadedArena}
    (ran : run threadStep (.start mem' arena) steps = some s) (small : s.added < 2 ^ 62) :
    s.Disjoint mem' arena := by
  obtain ⟨⟨block, m⟩, granted, same⟩ := Option.map_eq_some_iff.mp made
  cases same
  obtain ⟨nonnull, bounded⟩ := allocator.bounded granted
  let arena : Arena := ⟨block, block, (block + size) % 2 ^ 64⟩
  have start : (ThreadedArena.start m arena).Sound m arena :=
    ⟨rfl, rfl, rfl, fun _ member => absurd member List.not_mem_nil,
      fun _ member => absurd member List.not_mem_nil, List.Pairwise.nil, ChangedWithin.refl _ _ _⟩
  have kept := run_invariant (I := fun s => s.added < 2 ^ 62 → s.Sound m arena)
    (fun s op s' sound stepped small => threadStep_sound
      (sound ((threadStep_added stepped).trans_lt small)) nonnull le_rfl
      (show block ≤ 2 ^ 63 by omega) stepped small) ran fun _ => start
  exact (kept small).disjoint

/-- Two threads read `begin` one after the other, and add in the other order. -/
theorem threadRun_disjoint_crossed : ∃ s,
    run threadStep (.start (Mem.store (fun _ => 0) 8 []) smallArena)
      [.read 0 10 16, .read 1 8 8, .add 1, .add 0, .read 1 60 8, .add 1] = some s ∧
    s.regions = [(24, 10), (8, 8)] ∧ s.Disjoint (Mem.store (fun _ => 0) 8 []) smallArena := by
  have made : arenaNew Realloc.single (fun _ => 0) 64 =
      some (Mem.store (fun _ => 0) 8 [], smallArena) := rfl
  have reaches : ((run threadStep (.start (Mem.store (fun _ => 0) 8 []) smallArena)
      [.read 0 10 16, .read 1 8 8, .add 1, .add 0, .read 1 60 8, .add 1]).any fun s =>
      decide (s.regions = [(24, 10), (8, 8)] ∧ s.added < 2 ^ 62)) = true := by
    decide +kernel
  obtain ⟨s, ran, facts⟩ := (Option.any_eq_true _ _).mp reaches
  obtain ⟨regions, small⟩ := of_decide_eq_true facts
  exact ⟨s, ran, regions, threadRun_disjoint Realloc.single made _ ran small⟩

/-- The size that a step asks for. -/
def ThreadStep.size : ThreadStep → Nat
  | .read _ size _ => size
  | .add _ => 0

/-- **The paddings wrap around**: four threads read `begin` of an arena of more than `2 ^ 62` bytes at 8
and ask for 10 bytes aligned to `2 ^ 62`; the last one gets the region at 6. -/
theorem paddings_wrap :
    ¬ ∀ (allocator : Realloc) (mem mem' : Mem) (size : Nat) (arena : Arena),
      arenaNew allocator mem size = some (mem', arena) → ∀ (steps : List ThreadStep) (s : ThreadedArena),
        (steps.map ThreadStep.size).sum < 2 ^ 62 →
        run threadStep (.start mem' arena) steps = some s → s.Disjoint mem' arena := by
  intro claimed
  let arena : Arena := ⟨8, 8, 8 + (2 ^ 62 + 2 ^ 61)⟩
  let steps : List ThreadStep := [.read 0 10 (2 ^ 62), .read 1 10 (2 ^ 62), .read 2 10 (2 ^ 62),
    .read 3 10 (2 ^ 62), .add 0, .add 1, .add 2, .add 3]
  have made : arenaNew Realloc.single (fun _ => 0) (2 ^ 62 + 2 ^ 61) =
      some (Mem.store (fun _ => 0) 8 [], arena) := rfl
  have reaches : ((run threadStep (.start (Mem.store (fun _ => 0) 8 []) arena) steps).any fun s =>
      decide (s.regions = [(6, 10), (2 ^ 62, 10)])) = true := by
    decide +kernel
  obtain ⟨s, ran, facts⟩ := (Option.any_eq_true _ _).mp reaches
  have disjoint := claimed Realloc.single _ _ _ arena made steps s (by decide) ran
  have regions : s.regions = [(6, 10), (2 ^ 62, 10)] := of_decide_eq_true facts
  have inside : 8 ≤ 6 := (disjoint.inside (6, 10) (by rw [regions]; exact List.mem_cons_self)).1
  omega

end Interleavings

end Vaudou
