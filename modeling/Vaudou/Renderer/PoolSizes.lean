/-
**The sizes of descriptor pools.**

The first pool is created for `initial_sets` sets and every later one for half as many again as the one
before, with a limit. For every entry of the ratio table `create_pool` writes a pool size, but reads the
first entry each time.

* `PoolsGrown.step` — the pools of a run, in order: how many sets they are for, and their sizes.
* **`pools_sized_iff`** — the pools of a run are sized by the table exactly when at their set counts all
  of its entries ask for what the first one asks for.
-/

import Mathlib.Algebra.Order.Floor.Ring
import Mathlib.Data.Rat.Floor
import Vaudou.Renderer.DescriptorAllocator

namespace Vaudou

open Vaudou.Resources Vaudou.Run

/-! ### Tables -/

section Tables

/-- `VD_DescriptorPoolSizeRatio`, with the ratio as an exact rational. -/
structure PoolRatio where
  type : Nat
  ratio : ℚ

/-- `(u32)(ratio * set_count)`, which C leaves undefined from 2^32 on. -/
def PoolRatio.descriptors (entry : PoolRatio) (n : Nat) : Nat := ⌊entry.ratio * n⌋₊

/-- The entry as the allocator reads it. -/
def PoolRatio.scaled (entry : PoolRatio) : PoolSizeRatio := ⟨entry.type, entry.descriptors⟩

/-- **The sizes that the table asks for** in a pool for `n` sets, entry by entry. -/
def tableSizes (table : List PoolRatio) (n : Nat) : List PoolSize :=
  table.map fun entry => ⟨entry.type, entry.descriptors n⟩

/-- All entries ask for what the first one asks for. -/
def AskAlike (table : List PoolRatio) (n : Nat) : Prop :=
  ∀ first ∈ table.head?, ∀ entry ∈ table, entry.type = first.type ∧
    entry.descriptors n = first.descriptors n

/-- `sets_per_pool` when pool `k` is created; the first one gets `initial_sets`. -/
def poolSets (initial : Nat) : Nat → Nat
  | 0 => initial
  | 1 => scaleSets initial
  | k + 2 =>
    if 4092 < scaleSets (poolSets initial (k + 1)) then 4092 else scaleSets (poolSets initial (k + 1))

theorem poolSets_succ {initial k : Nat} (later : 0 < k) : poolSets initial (k + 1) =
    if 4092 < scaleSets (poolSets initial k) then 4092 else scaleSets (poolSets initial k) := by
  cases k with
  | zero => cases later
  | succ k => rfl

/-- The sizes that `create_pool` writes. -/
def createdSizes (ratios : List PoolSizeRatio) (n : Nat) : List PoolSize :=
  ratios.filterMap fun _ => ratios.head?.map fun ratio => ⟨ratio.type, ratio.scaled n⟩

/-- The set count and the sizes of a pool that a call creates. -/
def PoolCall.sized : PoolCall → Option (Nat × List PoolSize)
  | .create _ maxSets sizes => some (maxSets, sizes)
  | _ => none

/-- The pools that the calls create, in order. -/
def poolsMade (calls : List PoolCall) : List (Nat × List PoolSize) := calls.filterMap PoolCall.sized

/-- **Every pool is sized by the table.** -/
def SizedBy (table : List PoolRatio) (calls : List PoolCall) : Prop :=
  ∀ made ∈ poolsMade calls, made.2 = tableSizes table made.1

/-- The sizes written are those asked for exactly when all entries ask for the same. -/
theorem createdSizes_eq_iff {table : List PoolRatio} {n : Nat} :
    createdSizes (table.map PoolRatio.scaled) n = tableSizes table n ↔ AskAlike table n := by
  cases table with
  | nil =>
    refine ⟨fun _ first member => ?_, fun _ => rfl⟩
    cases member
  | cons first rest =>
    have written : createdSizes ((first :: rest).map PoolRatio.scaled) n =
        (first :: rest).map fun _ => PoolSize.mk first.type (first.descriptors n) := by
      unfold createdSizes
      rw [List.filterMap_map]
      have all : (fun _ : PoolRatio => some (PoolSize.mk first.type (first.descriptors n))) =
          some ∘ fun _ => PoolSize.mk first.type (first.descriptors n) := rfl
      exact congrFun (all ▸ List.filterMap_eq_map) (first :: rest)
    rw [written, tableSizes, List.map_inj_left]
    constructor
    · intro same first' head entry member
      obtain rfl : first = first' := Option.some.inj head
      have size := PoolSize.mk.inj (same entry member)
      exact ⟨size.1.symm, size.2.symm⟩
    · intro alike entry member
      obtain ⟨type, count⟩ := alike first rfl entry member
      rw [type, count]

end Tables

/-! ### The pools of a run -/

section Growth

/-- **The pools that were made**: pool `k` is for `poolSets k` sets, and its sizes are read from the first
ratio. -/
structure PoolsGrown (info : DescriptorAllocatorInitInfo) (s : DescriptorAllocator) : Prop where
  ratios : s.ratios = info.ratios
  next : s.sets_per_pool = poolSets info.initial_sets (poolsMade s.calls).length
  some_ : 0 < (poolsMade s.calls).length
  made : poolsMade s.calls = (List.range (poolsMade s.calls).length).map fun k =>
    (poolSets info.initial_sets k, createdSizes info.ratios (poolSets info.initial_sets k))

variable {info : DescriptorAllocatorInitInfo} {s next : DescriptorAllocator}
  {got first : Nat × DescriptorAllocator} {created layout pnext : Nat} {vk : AllocateAnswers}

theorem poolsMade_append (calls more : List PoolCall) :
    poolsMade (calls ++ more) = poolsMade calls ++ poolsMade more := List.filterMap_append

/-- Calls that create no pool. -/
theorem PoolsGrown.append (grown : PoolsGrown info s) {calls : List PoolCall}
    (same : poolsMade calls = poolsMade s.calls) {free full : List Nat} :
    PoolsGrown info ⟨s.ratios, full, free, s.sets_per_pool, calls⟩ := by
  obtain ⟨ratios, next, some_, made⟩ := grown
  refine ⟨ratios, ?_, ?_, ?_⟩
  · show _ = poolSets _ (poolsMade calls).length
    rw [same]
    exact next
  · show 0 < (poolsMade calls).length
    rw [same]
    exact some_
  · show poolsMade calls = _
    rw [same]
    exact made

/-- One pool more. -/
theorem range_map_snoc {α : Type} (f : Nat → α) (n : Nat) :
    (List.range n).map f ++ [f n] = (List.range (n + 1)).map f := by
  rw [List.range_succ, List.map_append]
  rfl

/-- **A pool that is created** is the next one. -/
theorem PoolsGrown.getPool (grown : PoolsGrown info s) (found : getPool s created = some got) :
    PoolsGrown info got.2 := by
  unfold Vaudou.getPool at found
  split at found
  · cases found
    exact grown.append rfl
  · obtain ⟨result, making, rfl⟩ := Option.map_eq_some_iff.mp found
    unfold createPool at making
    split at making
    · cases making
    · cases making
      obtain ⟨ratios, next, some_, made⟩ := grown
      have calls : poolsMade (s.calls ++ [.create created s.sets_per_pool
          (createdSizes s.ratios s.sets_per_pool)]) = poolsMade s.calls ++
          [(poolSets info.initial_sets (poolsMade s.calls).length,
            createdSizes info.ratios (poolSets info.initial_sets (poolsMade s.calls).length))] := by
        rw [poolsMade_append, ratios, next]
        rfl
      have length := congrArg List.length calls
      rw [List.length_append, List.length_singleton] at length
      refine ⟨ratios, ?_, ?_, ?_⟩
      · show _ = poolSets info.initial_sets (poolsMade (s.calls ++ [_])).length
        have count : poolSets info.initial_sets ((poolsMade s.calls).length + 1) =
            if 4092 < scaleSets s.sets_per_pool then 4092 else scaleSets s.sets_per_pool := by
          rw [next]
          exact poolSets_succ some_
        exact count.symm.trans (congrArg (poolSets info.initial_sets) length.symm)
      · show 0 < (poolsMade (s.calls ++ [_])).length
        exact length ▸ Nat.succ_pos _
      · show poolsMade (s.calls ++ [_]) = (List.range (poolsMade (s.calls ++ [_])).length).map _
        refine calls.trans ?_
        refine Eq.trans ?_ (congrArg (fun n => (List.range n).map _) length.symm)
        rw [← range_map_snoc]
        refine congrArg (· ++ [_]) ?_
        exact made

/-- A call on a pool in use. -/
theorem PoolsGrown.allocate (grown : PoolsGrown info s) {pool : Nat} {result : VkResult} :
    PoolsGrown info (s.call (.allocate pool layout pnext result)) :=
  grown.append (by rw [poolsMade_append]; exact List.append_nil _)

theorem poolsMade_resets (calls : List PoolCall) (pools : List Nat) :
    poolsMade (calls ++ pools.map .reset) = poolsMade calls := by
  rw [poolsMade_append]
  have none_ : poolsMade (pools.map .reset) = [] := by
    unfold poolsMade
    rw [List.filterMap_map]
    exact List.filterMap_eq_nil_iff.mpr fun _ _ => rfl
  rw [none_, List.append_nil]

/-- **Every operation** makes the next pools, if any. -/
theorem PoolsGrown.step (s : DescriptorAllocator) (op : DescriptorOp) (next : DescriptorAllocator)
    (grown : PoolsGrown info s) (stepped : descriptorStep s op = some next) : PoolsGrown info next := by
  cases op with
  | allocate layout pnext vk =>
    obtain ⟨answer, done, rfl⟩ := Option.map_eq_some_iff.mp stepped
    obtain ⟨first, tried, done⟩ := Option.bind_eq_some_iff.mp done
    obtain ⟨got, found, rfl⟩ := Option.map_eq_some_iff.mp tried
    have used : PoolsGrown info (got.2.call (.allocate got.1 layout pnext vk.result)) :=
      (grown.getPool found).allocate
    split at done
    · obtain ⟨second, retired, done⟩ := Option.bind_eq_some_iff.mp done
      split at done
      · cases done
        have again : PoolsGrown info second.2 := PoolsGrown.getPool (used.append rfl) retired
        exact again.allocate.append rfl
      · cases done
    · cases done
      exact used.append rfl
  | clear =>
    cases stepped
    refine grown.append ?_
    rw [poolsMade_resets, poolsMade_resets]

/-- `vd_descriptor_allocator_init` makes the first pool. -/
theorem PoolsGrown.init (started : descriptorAllocatorInit info created = some s) : PoolsGrown info s := by
  obtain ⟨result, made, rfl⟩ := Option.map_eq_some_iff.mp started
  unfold createPool at made
  split at made
  · cases made
  · cases made
    exact ⟨rfl, rfl, Nat.one_pos, rfl⟩

end Growth

/-! ### Pools and the table -/

section Sized

variable {table : List PoolRatio} {initial created : Nat} {ops : List DescriptorOp}
  {start s : DescriptorAllocator}

/-- **The pools of a run are sized by the table** exactly when at the set count of each of them all entries
of the table ask for what the first one asks for. -/
theorem pools_sized_iff
    (started : descriptorAllocatorInit ⟨initial, table.map PoolRatio.scaled⟩ created = some start)
    (ran : run descriptorStep start ops = some s) :
    SizedBy table s.calls ↔
      ∀ k < (poolLedger s.calls).created.length, AskAlike table (poolSets initial k) := by
  have grown := run_invariant PoolsGrown.step ran (PoolsGrown.init started)
  have count : (poolLedger s.calls).created.length = (poolsMade s.calls).length := by
    unfold poolLedger poolsMade
    rw [List.length_filterMap_eq_countP, List.length_filterMap_eq_countP]
    refine List.countP_congr fun call _ => ?_
    cases call <;> exact Iff.rfl
  rw [count]
  have every : SizedBy table s.calls ↔ ∀ k < (poolsMade s.calls).length,
      createdSizes (table.map PoolRatio.scaled) (poolSets initial k) =
        tableSizes table (poolSets initial k) := by
    constructor
    · intro sized k inside
      have member : (poolSets initial k, createdSizes (table.map PoolRatio.scaled) (poolSets initial k)) ∈
          poolsMade s.calls := by
        rw [grown.made]
        exact List.mem_map.mpr ⟨k, List.mem_range.mpr inside, rfl⟩
      exact sized _ member
    · intro same made member
      rw [grown.made] at member
      obtain ⟨k, inside, rfl⟩ := List.mem_map.mp member
      exact same k (List.mem_range.mp inside)
  rw [every]
  exact forall_congr' fun k => forall_congr' fun _ => createdSizes_eq_iff

/-- One type, half as many descriptors as sets: two pools of a run. -/
theorem pools_sized_half : ∃ start s,
    descriptorAllocatorInit ⟨10, [PoolRatio.scaled ⟨6, 1 / 2⟩]⟩ 100 = some start ∧
    run descriptorStep start [.allocate 7 0 ⟨0, 101, .errorOutOfPoolMemory, .success, 8⟩] = some s ∧
    SizedBy [⟨6, 1 / 2⟩] s.calls := by
  refine ⟨_, _, rfl, rfl, (@pools_sized_iff [⟨6, 1 / 2⟩] 10 100
    [.allocate 7 0 ⟨0, 101, .errorOutOfPoolMemory, .success, 8⟩] _ _ rfl rfl).mpr ?_⟩
  intro k _ first head entry member
  obtain rfl := Option.some.inj head
  rw [List.mem_singleton.mp member]
  exact ⟨rfl, rfl⟩

/-- **A table with two types**: the first pool has no descriptor of the second one. -/
theorem second_type_missing : ∃ start,
    descriptorAllocatorInit ⟨10, [PoolRatio.scaled ⟨1, 1⟩, PoolRatio.scaled ⟨6, 3⟩]⟩ 100 = some start ∧
    poolsMade start.calls = [(10, [⟨1, 10⟩, ⟨1, 10⟩])] ∧
    ¬ SizedBy [⟨1, 1⟩, ⟨6, 3⟩] start.calls := by
  have ten : PoolRatio.descriptors ⟨1, 1⟩ 10 = 10 := by
    unfold PoolRatio.descriptors
    norm_num
  have made : poolsMade [.create 100 10 [⟨1, PoolRatio.descriptors ⟨1, 1⟩ 10⟩,
      ⟨1, PoolRatio.descriptors ⟨1, 1⟩ 10⟩]] = [(10, [⟨1, 10⟩, ⟨1, 10⟩])] := by
    rw [ten]
    rfl
  refine ⟨_, rfl, made, fun sized => ?_⟩
  have sizes := sized (10, [⟨1, 10⟩, ⟨1, 10⟩]) (by
    refine (congrArg (_ ∈ ·) made).mpr ?_
    exact List.mem_singleton_self _)
  cases congrArg (List.map PoolSize.type) sizes

end Sized

end Vaudou
