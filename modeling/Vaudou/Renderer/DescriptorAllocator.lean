/-
**The descriptor allocator.**

Descriptor sets are allocated from the pool at the end of `free_pools`. A pool that is exhausted is moved
to `full_pools`, and the allocation is tried once more with another; `vd_descriptor_allocator_clear`
resets all pools and moves them back. The calls of the device are logged, and what the device answers is
an input of every operation: `none` is an answer that is not allowed (a handle that exists already) or
one for which `VD_VK_CHECK` aborts.

* `descriptorAllocator_conserves` — every created pool is in one of the two arrays, once.
* `descriptorAllocator_retries` — only the last free pool is in use, so the second try is made with a
  pool that has no sets allocated.
-/

import Vaudou.Foundation.Float32
import Vaudou.Foundation.Resources
import Vaudou.Foundation.Run

namespace Vaudou

open Vaudou.Float Vaudou.Resources Vaudou.Run

/-- A `VkResult`, as far as the allocator tells them apart. -/
inductive VkResult where
  | success
  | errorOutOfPoolMemory
  | errorFragmentedPool
  | otherError (code : Int)
deriving DecidableEq, Repr

/-- `VD_DescriptorPoolSizeRatio`; `scaled` is `(u32)(ratio * set_count)`. -/
structure PoolSizeRatio where
  type : Nat
  scaled : Nat → Nat

/-- `VkDescriptorPoolSize`. -/
structure PoolSize where
  type : Nat
  descriptorCount : Nat
deriving DecidableEq, Repr

/-- A call of the device. -/
inductive PoolCall where
  /-- `vkCreateDescriptorPool` -/
  | create (pool maxSets : Nat) (sizes : List PoolSize)
  /-- `vkAllocateDescriptorSets` -/
  | allocate (pool layout pnext : Nat) (result : VkResult)
  /-- `vkResetDescriptorPool` -/
  | reset (pool : Nat)
  /-- `vkDestroyDescriptorPool` -/
  | destroy (pool : Nat)
deriving DecidableEq, Repr

/-- `VD_DescriptorAllocator`, with the calls made so far, oldest first. -/
structure DescriptorAllocator where
  ratios : List PoolSizeRatio
  full_pools : List Nat
  free_pools : List Nat
  sets_per_pool : Nat
  calls : List PoolCall

/-- `VD_DescriptorAllocatorInitInfo`. -/
structure DescriptorAllocatorInitInfo where
  initial_sets : Nat
  ratios : List PoolSizeRatio

/-- What the device answers in one allocation: the handles of the pools it creates, the results, and the
descriptor set. -/
structure AllocateAnswers where
  created : Nat
  createdAgain : Nat
  result : VkResult
  resultAgain : VkResult
  ds : Nat
deriving DecidableEq, Repr

/-- The pool that a call creates. -/
def PoolCall.created : PoolCall → Option Nat
  | .create pool _ _ => some pool
  | _ => none

/-- The pool that a call resets. -/
def PoolCall.resets : PoolCall → Option Nat
  | .reset pool => some pool
  | _ => none

/-- The pool that a call destroys. -/
def PoolCall.destroyed : PoolCall → Option Nat
  | .destroy pool => some pool
  | _ => none

/-- The pools created and destroyed by the calls. -/
def poolLedger (calls : List PoolCall) : Ledger Nat :=
  ⟨calls.filterMap PoolCall.created, calls.filterMap PoolCall.destroyed⟩

/-- The number of sets in a pool behind a call. -/
def setsBehind (pool sets : Nat) : PoolCall → Nat
  | .create created _ _ => if created = pool then 0 else sets
  | .allocate used _ _ result => if used = pool ∧ result = .success then sets + 1 else sets
  | .reset emptied => if emptied = pool then 0 else sets
  | .destroy _ => sets

/-- **The sets allocated from a pool** since it was created or last reset. -/
def setsIn (pool : Nat) (calls : List PoolCall) : Nat := calls.foldl (setsBehind pool) 0

/-- A call is made. -/
def DescriptorAllocator.call (s : DescriptorAllocator) (call : PoolCall) : DescriptorAllocator :=
  { s with calls := s.calls ++ [call] }

/-- `(u32)(n * 1.5f)`; out of range, where C leaves the conversion undefined, the low 32 bits. -/
def scaleSets (n : Nat) : Nat := roundSignificand (3 * roundSignificand n) / 2 % 2 ^ 32

/-- `create_pool`: `vkCreateDescriptorPool` returns `pool`. -/
def createPool (s : DescriptorAllocator) (set_count pool : Nat) : Option (Nat × DescriptorAllocator) :=
  if pool ∈ (poolLedger s.calls).created then none
  else
    -- every entry is made from the first ratio: the loop reads `ratios->type`, not `ratios[i].type`
    let sizes := s.ratios.filterMap fun _ =>
      s.ratios.head?.map fun ratio => ⟨ratio.type, ratio.scaled set_count⟩
    some (pool, s.call (.create pool set_count sizes))

/-- `get_pool`. -/
def getPool (s : DescriptorAllocator) (created : Nat) : Option (Nat × DescriptorAllocator) :=
  match s.free_pools.getLast? with
  | some pool => some (pool, { s with free_pools := s.free_pools.dropLast })
  | none => (createPool s s.sets_per_pool created).map fun result =>
    (result.1, { result.2 with
      sets_per_pool := if 4092 < scaleSets s.sets_per_pool then 4092 else scaleSets s.sets_per_pool })

/-- `vd_descriptor_allocator_init`. -/
def descriptorAllocatorInit (info : DescriptorAllocatorInitInfo) (created : Nat) :
    Option DescriptorAllocator :=
  (createPool ⟨info.ratios, [], [], scaleSets info.initial_sets, []⟩ info.initial_sets created).map
    fun result => { result.2 with free_pools := [result.1] }

/-- The first `vkAllocateDescriptorSets` of `vd_descriptor_allocator_allocate`, and the pool it was
called with. -/
def allocateFirst (s : DescriptorAllocator) (layout pnext : Nat) (vk : AllocateAnswers) :
    Option (Nat × DescriptorAllocator) :=
  (getPool s vk.created).map fun first =>
    (first.1, first.2.call (.allocate first.1 layout pnext vk.result))

/-- `array_add(descalloc->full_pools, pool_to_use)`, and another pool for the second try. -/
def retirePool (first : Nat × DescriptorAllocator) (vk : AllocateAnswers) :
    Option (Nat × DescriptorAllocator) :=
  getPool { first.2 with full_pools := first.2.full_pools ++ [first.1] } vk.createdAgain

/-- `array_add(descalloc->free_pools, pool_to_use)`. -/
def returnPool (used : Nat × DescriptorAllocator) : DescriptorAllocator :=
  { used.2 with free_pools := used.2.free_pools ++ [used.1] }

/-- The results for which a pool is retired. -/
def VkResult.Exhausted (result : VkResult) : Prop :=
  result = .errorOutOfPoolMemory ∨ result = .errorFragmentedPool

instance (result : VkResult) : Decidable result.Exhausted := inferInstanceAs (Decidable (_ ∨ _))

/-- `vd_descriptor_allocator_allocate`: the descriptor set, unless it is left uninitialised, and the
allocator. -/
def descriptorAllocatorAllocate (s : DescriptorAllocator) (layout pnext : Nat) (vk : AllocateAnswers) :
    Option (Option Nat × DescriptorAllocator) :=
  (allocateFirst s layout pnext vk).bind fun first =>
    if vk.result.Exhausted then
      (retirePool first vk).bind fun second =>
        -- `VD_VK_CHECK` aborts
        if vk.resultAgain = .success then
          some (some vk.ds, returnPool (second.1,
            second.2.call (.allocate second.1 layout pnext vk.resultAgain)))
        else none
    else some (if vk.result = .success then some vk.ds else none, returnPool first)

/-- `vd_descriptor_allocator_clear`. -/
def descriptorAllocatorClear (s : DescriptorAllocator) : DescriptorAllocator :=
  { s with
    calls := s.calls ++ s.free_pools.map .reset ++ s.full_pools.map .reset
    free_pools := s.free_pools ++ s.full_pools
    full_pools := [] }

/-- `vd_descriptor_allocator_deinit`: the calls. -/
def descriptorAllocatorDeinit (s : DescriptorAllocator) : List PoolCall :=
  s.calls ++ s.free_pools.map .destroy ++ s.full_pools.map .destroy

/-- An operation between `vd_descriptor_allocator_init` and `vd_descriptor_allocator_deinit`. -/
inductive DescriptorOp where
  | allocate (layout pnext : Nat) (vk : AllocateAnswers)
  | clear
deriving DecidableEq, Repr

/-- An operation. -/
def descriptorStep (s : DescriptorAllocator) : DescriptorOp → Option DescriptorAllocator
  | .allocate layout pnext vk => (descriptorAllocatorAllocate s layout pnext vk).map Prod.snd
  | .clear => some (descriptorAllocatorClear s)

/-! ### The calls -/

section Calls

variable {calls more : List PoolCall} {pool other : Nat}

theorem poolLedger_create (maxSets : Nat) (sizes : List PoolSize) :
    poolLedger (calls ++ [.create pool maxSets sizes]) = (poolLedger calls).create [pool] := by
  simp [poolLedger, Ledger.create, PoolCall.created, PoolCall.destroyed]

theorem poolLedger_allocate (layout pnext : Nat) (result : VkResult) :
    poolLedger (calls ++ [.allocate pool layout pnext result]) = poolLedger calls := by
  simp [poolLedger, PoolCall.created, PoolCall.destroyed]

theorem poolLedger_resets (pools : List Nat) :
    poolLedger (calls ++ pools.map .reset) = poolLedger calls := by
  simp [poolLedger, PoolCall.created, PoolCall.destroyed, List.filterMap_map, Function.comp_def]

theorem poolLedger_destroys (pools : List Nat) :
    poolLedger (calls ++ pools.map .destroy) = (poolLedger calls).destroy pools := by
  simp [poolLedger, Ledger.destroy, PoolCall.created, PoolCall.destroyed, List.filterMap_map,
    Function.comp_def]

theorem setsIn_append (call : PoolCall) :
    setsIn pool (calls ++ [call]) = setsBehind pool (setsIn pool calls) call := by
  simp [setsIn, List.foldl_append]

theorem setsIn_create (maxSets : Nat) (sizes : List PoolSize) :
    setsIn pool (calls ++ [.create pool maxSets sizes]) = 0 := by
  rw [setsIn_append, setsBehind, if_pos rfl]

theorem setsIn_allocate_other (layout pnext : Nat) (result : VkResult) (apart : other ≠ pool) :
    setsIn pool (calls ++ [.allocate other layout pnext result]) = setsIn pool calls := by
  rw [setsIn_append, setsBehind, if_neg (fun both => apart both.1)]

/-- **A pool that was reset is empty.** -/
theorem setsIn_resets {pools : List Nat} (empty : setsIn pool calls = 0 ∨ pool ∈ pools) :
    setsIn pool (calls ++ pools.map .reset) = 0 := by
  induction pools generalizing calls with
  | nil =>
    rcases empty with empty | member
    · rwa [List.map_nil, List.append_nil]
    · cases member
  | cons first rest ih =>
    rw [List.map_cons, List.append_cons]
    refine ih ?_
    rw [setsIn_append, setsBehind]
    by_cases here : first = pool
    · exact Or.inl (if_pos here)
    · rw [if_neg here]
      refine empty.imp_right fun member => ?_
      exact (List.mem_cons.mp member).resolve_left fun same => here same.symm

end Calls

/-! ### Where the pools are -/

/-- **Between calls**, the pools that were created are in the two arrays, and only the last free pool may
be in use. -/
structure PoolsSound (s : DescriptorAllocator) : Prop where
  accounts : (poolLedger s.calls).Accounts (s.free_pools ++ s.full_pools)
  kept : (poolLedger s.calls).destroyed = []
  spare : ∀ pool ∈ s.free_pools.dropLast, setsIn pool s.calls = 0

/-- **While a pool is in use**, it is in neither of the arrays, and all free pools are empty. -/
structure PoolInUse (used : Nat × DescriptorAllocator) : Prop where
  accounts : (poolLedger used.2.calls).Accounts (used.1 :: (used.2.free_pools ++ used.2.full_pools))
  kept : (poolLedger used.2.calls).destroyed = []
  spare : ∀ pool ∈ used.2.free_pools, setsIn pool used.2.calls = 0

section Pools

variable {s next : DescriptorAllocator} {created set_count layout pnext : Nat}
  {got used first second : Nat × DescriptorAllocator} {vk : AllocateAnswers} {result : VkResult}

/-- `create_pool` logs the creation of a handle that is new. -/
theorem createPool_eq_some (made : createPool s set_count created = some got) :
    created ∉ (poolLedger s.calls).created ∧
      ∃ sizes, got = (created, s.call (.create created set_count sizes)) := by
  unfold createPool at made
  split at made
  · cases made
  · next fresh =>
    cases made
    exact ⟨fresh, _, rfl⟩

/-- **A pool comes from the end of the free pools**, or is created when there are none. -/
theorem getPool_eq_some (found : getPool s created = some got) :
    (s.free_pools = got.2.free_pools ++ [got.1] ∧ got.2.full_pools = s.full_pools ∧
      got.2.calls = s.calls) ∨
    (s.free_pools = [] ∧ got.2.free_pools = [] ∧ got.2.full_pools = s.full_pools ∧
      got.1 ∉ (poolLedger s.calls).created ∧
      ∃ maxSets sizes, got.2.calls = s.calls ++ [.create got.1 maxSets sizes]) := by
  unfold getPool at found
  split at found
  · next pool last =>
    cases found
    refine Or.inl ⟨?_, rfl, rfl⟩
    exact (List.dropLast_append_getLast? pool last).symm
  · next none =>
    obtain ⟨result, made, rfl⟩ := Option.map_eq_some_iff.mp found
    obtain ⟨fresh, sizes, rfl⟩ := createPool_eq_some made
    have empty : s.free_pools = [] := List.getLast?_eq_none_iff.mp none
    exact Or.inr ⟨empty, empty, rfl, fresh, s.sets_per_pool, sizes, rfl⟩

/-- **Taking a pool into use.** -/
theorem getPool_inUse (accounts : (poolLedger s.calls).Accounts (s.free_pools ++ s.full_pools))
    (kept : (poolLedger s.calls).destroyed = [])
    (spare : ∀ pool ∈ s.free_pools.dropLast, setsIn pool s.calls = 0)
    (found : getPool s created = some got) : PoolInUse got := by
  rcases getPool_eq_some found with ⟨split, full, same⟩ |
    ⟨empty, free, full, fresh, maxSets, sizes, more⟩
  · constructor
    · rw [same, full]
      refine accounts.perm ?_
      rw [split, List.append_assoc]
      exact List.perm_middle
    · rwa [same]
    · rw [same]
      rw [split, List.dropLast_concat] at spare
      exact spare
  · constructor
    · rw [more, poolLedger_create, free, full]
      rw [empty] at accounts
      refine (accounts.create ⟨List.nodup_singleton _, ?_⟩).perm (List.perm_append_singleton _ _)
      rintro pool member
      rwa [List.mem_singleton.mp member]
    · rw [more, poolLedger_create]
      exact kept
    · rw [free]
      exact fun pool member => absurd member List.not_mem_nil

/-- **A pool that is taken when all free pools are empty is empty.** -/
theorem getPool_empty (spare : ∀ pool ∈ s.free_pools, setsIn pool s.calls = 0)
    (found : getPool s created = some got) : setsIn got.1 got.2.calls = 0 := by
  rcases getPool_eq_some found with ⟨split, _, same⟩ | ⟨_, _, _, _, maxSets, sizes, more⟩
  · rw [same]
    refine spare got.1 ?_
    rw [split]
    exact List.mem_append_right _ List.mem_cons_self
  · rw [more]
    exact setsIn_create maxSets sizes

/-- Allocating from the pool in use leaves the free pools empty. -/
theorem PoolInUse.allocate (inUse : PoolInUse used) :
    PoolInUse (used.1, used.2.call (.allocate used.1 layout pnext result)) where
  accounts := by
    simp only [DescriptorAllocator.call, poolLedger_allocate]
    exact inUse.accounts
  kept := by
    simp only [DescriptorAllocator.call, poolLedger_allocate]
    exact inUse.kept
  spare pool member := by
    have apart : used.1 ≠ pool := by
      rintro rfl
      exact (List.nodup_cons.mp inUse.accounts.held_nodup).1 (List.mem_append_left _ member)
    simp only [DescriptorAllocator.call]
    rw [setsIn_allocate_other _ _ _ apart]
    exact inUse.spare pool member

/-- The first try. -/
theorem allocateFirst_inUse (sound : PoolsSound s)
    (tried : allocateFirst s layout pnext vk = some first) : PoolInUse first := by
  obtain ⟨got, found, rfl⟩ := Option.map_eq_some_iff.mp tried
  exact (getPool_inUse sound.accounts sound.kept sound.spare found).allocate

/-- **The second try is made with an empty pool**, and the first pool is among the full ones. -/
theorem retirePool_inUse (inUse : PoolInUse first) (retired : retirePool first vk = some second) :
    PoolInUse second ∧ setsIn second.1 second.2.calls = 0 := by
  let emptied : DescriptorAllocator :=
    { first.2 with full_pools := first.2.full_pools ++ [first.1] }
  have found : getPool emptied vk.createdAgain = some second := retired
  have accounts : (poolLedger emptied.calls).Accounts (emptied.free_pools ++ emptied.full_pools) := by
    refine inUse.accounts.perm ?_
    rw [← List.append_assoc]
    exact (List.perm_append_singleton _ _).symm
  have spare : ∀ pool ∈ emptied.free_pools, setsIn pool emptied.calls = 0 := inUse.spare
  constructor
  · refine getPool_inUse accounts inUse.kept ?_ found
    exact fun pool member => spare pool (List.dropLast_subset _ member)
  · exact getPool_empty spare found

/-- **A pool that is returned** is the last of the free pools. -/
theorem PoolInUse.returned (inUse : PoolInUse used) : PoolsSound (returnPool used) where
  accounts := by
    refine inUse.accounts.perm ?_
    rw [returnPool, List.append_assoc]
    exact List.perm_middle.symm
  kept := inUse.kept
  spare pool member := by
    rw [returnPool, List.dropLast_concat] at member
    exact inUse.spare pool member

/-- **An allocation keeps track of the pools.** -/
theorem descriptorAllocatorAllocate_sound {answer : Option Nat × DescriptorAllocator}
    (sound : PoolsSound s) (done : descriptorAllocatorAllocate s layout pnext vk = some answer) :
    PoolsSound answer.2 := by
  obtain ⟨first, tried, done⟩ := Option.bind_eq_some_iff.mp done
  have inUse := allocateFirst_inUse sound tried
  split at done
  · obtain ⟨second, retired, done⟩ := Option.bind_eq_some_iff.mp done
    split at done
    · cases done
      exact (retirePool_inUse inUse retired).1.allocate.returned
    · cases done
  · cases done
    exact inUse.returned

/-- **A clear moves all pools back**, and all of them are empty. -/
theorem descriptorAllocatorClear_sound (sound : PoolsSound s) :
    PoolsSound (descriptorAllocatorClear s) where
  accounts := by
    simp only [descriptorAllocatorClear, poolLedger_resets, List.append_nil]
    exact sound.accounts
  kept := by
    simp only [descriptorAllocatorClear, poolLedger_resets]
    exact sound.kept
  spare pool member := by
    have either := List.mem_append.mp (List.dropLast_subset _ member)
    show setsIn pool (s.calls ++ s.free_pools.map .reset ++ s.full_pools.map .reset) = 0
    refine setsIn_resets (either.imp_left fun free => ?_)
    exact setsIn_resets (Or.inr free)

/-- **Every operation keeps track of the pools.** -/
theorem descriptorStep_sound (s : DescriptorAllocator) (op : DescriptorOp) (next : DescriptorAllocator)
    (sound : PoolsSound s) (stepped : descriptorStep s op = some next) : PoolsSound next := by
  cases op with
  | allocate layout pnext vk =>
    obtain ⟨answer, done, rfl⟩ := Option.map_eq_some_iff.mp stepped
    exact descriptorAllocatorAllocate_sound sound done
  | clear =>
    cases stepped
    exact descriptorAllocatorClear_sound sound

/-- The allocator starts with one free pool. -/
theorem descriptorAllocatorInit_sound {info : DescriptorAllocatorInitInfo}
    (started : descriptorAllocatorInit info created = some s) : PoolsSound s := by
  obtain ⟨result, made, rfl⟩ := Option.map_eq_some_iff.mp started
  obtain ⟨fresh, sizes, rfl⟩ := createPool_eq_some made
  have start : (poolLedger []).Accounts ([] : List Nat) := Ledger.Accounts.empty
  constructor
  · show (poolLedger ([] ++ [_])).Accounts [created]
    rw [poolLedger_create]
    exact start.create ⟨List.nodup_singleton _, fun pool _ => List.not_mem_nil⟩
  · rfl
  · exact fun pool member => absurd member List.not_mem_nil

end Pools

/-! ### Runs -/

section Runs

variable {info : DescriptorAllocatorInitInfo} {created : Nat} {ops : List DescriptorOp}
  {start s : DescriptorAllocator}

theorem descriptorRun_sound (started : descriptorAllocatorInit info created = some start)
    (ran : run descriptorStep start ops = some s) : PoolsSound s :=
  run_invariant descriptorStep_sound ran (descriptorAllocatorInit_sound started)

/-- **Descriptor pools are conserved.** Behind every run of allocations and clears, the pools created are
those in `free_pools` and `full_pools`, each in one place; a clear resets each of them once and leaves no
full pool, and a final deinit destroys each of them once. -/
theorem descriptorAllocator_conserves (started : descriptorAllocatorInit info created = some start)
    (ran : run descriptorStep start ops = some s) :
    (poolLedger s.calls).created.Perm (s.free_pools ++ s.full_pools) ∧
    (s.free_pools ++ s.full_pools).Nodup ∧
    (∃ pools : List Nat, (descriptorAllocatorClear s).calls = s.calls ++ pools.map .reset ∧
      pools.Perm (poolLedger s.calls).created ∧ (descriptorAllocatorClear s).full_pools = []) ∧
    (poolLedger (descriptorAllocatorDeinit s)).destroyed.Perm (poolLedger s.calls).created := by
  have sound := descriptorRun_sound started ran
  have union : (poolLedger s.calls).created.Perm (s.free_pools ++ s.full_pools) := by
    have balance := sound.accounts.balance
    rwa [sound.kept, List.nil_append] at balance
  refine ⟨union, sound.accounts.held_nodup, ⟨s.free_pools ++ s.full_pools, ?_, union.symm, rfl⟩, ?_⟩
  · rw [List.map_append, ← List.append_assoc]
    rfl
  · rw [descriptorAllocatorDeinit, poolLedger_destroys, poolLedger_destroys,
      Ledger.destroy_destroyed, Ledger.destroy_destroyed, sound.kept, List.nil_append]
    exact union.symm

/-- A pool is exhausted and another one created; both are back after a clear, and the second is
exhausted. -/
theorem descriptorAllocator_conserves_exhausted : ∃ start s,
    descriptorAllocatorInit ⟨10, [⟨1, fun sets => 2 * sets⟩]⟩ 100 = some start ∧
    run descriptorStep start
      [.allocate 7 0 ⟨0, 101, .errorOutOfPoolMemory, .success, 8⟩, .clear,
        .allocate 7 0 ⟨0, 0, .errorFragmentedPool, .success, 9⟩] = some s ∧
    s.free_pools = [101] ∧ s.full_pools = [100] ∧
    (poolLedger (descriptorAllocatorDeinit s)).destroyed.Perm (poolLedger s.calls).created :=
  ⟨_, _, rfl, rfl, rfl, rfl, (@descriptorAllocator_conserves ⟨10, [⟨1, fun sets => 2 * sets⟩]⟩ 100
    [.allocate 7 0 ⟨0, 101, .errorOutOfPoolMemory, .success, 8⟩, .clear,
      .allocate 7 0 ⟨0, 0, .errorFragmentedPool, .success, 9⟩] _ _ rfl rfl).2.2.2⟩

/-- **The second try never fails.** Behind every run of allocations and clears, every free pool but the
last is empty; the pool of a second try is empty; and if the device allocates one set from an empty pool,
`VD_VK_CHECK` does not abort. -/
theorem descriptorAllocator_retries (started : descriptorAllocatorInit info created = some start)
    (ran : run descriptorStep start ops = some s) :
    (∀ pool ∈ s.free_pools.dropLast, setsIn pool s.calls = 0) ∧
    ∀ layout pnext vk first second, allocateFirst s layout pnext vk = some first →
      vk.result.Exhausted → retirePool first vk = some second →
      setsIn second.1 second.2.calls = 0 ∧
      ((setsIn second.1 second.2.calls = 0 → vk.resultAgain = .success) →
        (descriptorAllocatorAllocate s layout pnext vk).isSome) := by
  have sound := descriptorRun_sound started ran
  refine ⟨sound.spare, fun layout pnext vk first second tried exhausted retired => ?_⟩
  have empty := (retirePool_inUse (allocateFirst_inUse sound tried) retired).2
  refine ⟨empty, fun obliging => ?_⟩
  simp only [descriptorAllocatorAllocate, tried, Option.bind_some, if_pos exhausted, retired,
    if_pos (obliging empty), Option.isSome_some]

/-- The second try in a run: pool 101 was created for it. -/
theorem descriptorAllocator_retries_exhausted : ∃ start s,
    descriptorAllocatorInit ⟨10, []⟩ 100 = some start ∧
    run descriptorStep start [.allocate 7 0 ⟨0, 0, .success, .success, 8⟩] = some s ∧
    setsIn 100 s.calls = 1 ∧
    (descriptorAllocatorAllocate s 7 0 ⟨0, 101, .errorOutOfPoolMemory, .success, 9⟩).isSome :=
  ⟨_, _, rfl, rfl, rfl, ((@descriptorAllocator_retries ⟨10, []⟩ 100
    [.allocate 7 0 ⟨0, 0, .success, .success, 8⟩] _ _ rfl rfl).2 7 0
    ⟨0, 101, .errorOutOfPoolMemory, .success, 9⟩ _ _ rfl (Or.inl rfl) rfl).2 fun _ => rfl⟩

end Runs

end Vaudou
