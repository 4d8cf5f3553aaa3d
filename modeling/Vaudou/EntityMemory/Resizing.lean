/-
**Resizing an allocation of an entity: `vd_entity_alloc`.**

The procedure makes a new allocation and copies the old one into it, `prevsize` bytes whatever the new
size is. Whatever entities are destroyed and whenever the collector runs, the heap stays in order
(`EntityRun.Orderly`) as long as no copy is longer than the new allocation: the lists of the code lose
allocations, but give none back twice.

* `resize_contract` — the contract of a resize, for `vd_arena_proc_alloc` and for `vd_entity_alloc`,
  holds exactly if the block does not shrink.
-/

import Vaudou.Arena.Resizing
import Vaudou.EntityMemory.Lifetimes

namespace Vaudou

open Vaudou.Memory Vaudou.Run

/-! ### The procedure -/

section Procedure

variable (mm : EntityMemory)

/-- `vd_entity_alloc` in front of its `memcpy`: the new allocation, and its header and links. -/
def entityAllocLinked (entity newsize : Nat) : Option (EntityMemory × Nat) :=
  let size := (entityAllocationInfoSize + newsize) % 2 ^ 64
  (buddyAllocRealloc mm.mem mm.allocator 0 size).bind fun found =>
    let info := found.2
    if info = 0 then none
    else
      let mm := setInfoSize (setInfoNext { mm with mem := found.1 } info 0) info size
      (attachAllocation mm entity info).map fun mm => (mm, info)

/-- The `memcpy`. -/
def entityCopyStores (info ptr prevsize : Nat) : Stores :=
  if prevsize ≠ 0 then [(info + entityAllocationInfoSize, mm.mem.load ptr prevsize)] else []

theorem entityAlloc_linked {newsize : Nat} (nonzero : newsize ≠ 0) (entity ptr prevsize : Nat) :
    entityAlloc mm entity ptr prevsize newsize =
      (entityAllocLinked mm entity newsize).map fun linked =>
        (copyPrevious linked.1 linked.2 ptr prevsize, linked.2 + entityAllocationInfoSize) := by
  rw [entityAlloc, if_neg nonzero, entityAllocLinked, Option.map_bind]
  show (buddyAllocRealloc mm.mem mm.allocator 0 _).bind _ =
    (buddyAllocRealloc mm.mem mm.allocator 0 _).bind _
  refine congrArg _ (funext fun found => ?_)
  dsimp only [Function.comp]
  split
  · rfl
  · rw [Option.map_map]
    rfl

/-- Besides the header and the links, the call writes the copy. -/
theorem copyPrevious_stores (info ptr prevsize : Nat) :
    (copyPrevious mm info ptr prevsize).mem = mm.mem.stores (entityCopyStores mm info ptr prevsize) := by
  rw [copyPrevious, entityCopyStores]
  split
  · rfl
  · rfl

end Procedure

/-! ### Runs -/

/-- What happens to entities, and the writes of the users into their allocations. -/
inductive EntityCall where
  | op (op : EntityOp)
  | write (info offset : Nat) (bytes : List UInt8)

/-- A step. A user writes behind the header of an allocation. -/
def entityCallStep (state : EntityRun) : EntityCall → Option EntityRun
  | .op op => entityStep state op
  | .write info offset bytes =>
    if entityAllocationInfoSize ≤ offset ∧ ∃ a ∈ state.allocations, a.info = info ∧ a.returned = 0 ∧
        offset + bytes.length ≤ a.room then
      some { state with mm := { state.mm with mem := state.mm.mem.store (info + offset) bytes } }
    else none

/-- No allocation copies more than it has room for. -/
def EntityCall.Grows : EntityCall → Prop
  | .op (.alloc _ _ prevsize newsize) => prevsize ≤ newsize
  | .op (.destroy _) | .op .collect | .write _ _ _ => True

/-- `prevsize` bytes at `ptr` are those of an allocation that has not been given back. What was asked for
is such a size. -/
def EntityRun.Prior (state : EntityRun) (ptr prevsize : Nat) : Prop :=
  ∃ a ∈ state.allocations, a.returned = 0 ∧ ptr = a.info + entityAllocationInfoSize ∧
    entityAllocationInfoSize + prevsize ≤ a.room

instance (state : EntityRun) (ptr prevsize : Nat) : Decidable (state.Prior ptr prevsize) :=
  inferInstanceAs (Decidable (∃ a ∈ state.allocations, _))

/-- The free list is empty, or an allocation of a destroyed entity that ends it or links to itself. -/
inductive FreeListEnds (state : EntityRun) : Prop
  | empty (next : state.mm.freeListNext = 0)
  | one (a : Allocation) (member : a ∈ state.allocations) (next : state.mm.freeListNext = a.info)
      (live : a.returned = 0) (gone : ¬ state.Alive a.entity)
      (last : infoNext state.mm.mem a.info = 0 ∨ infoNext state.mm.mem a.info = a.info)

/-- **The invariant**: the heap is sound, and what components and the free list lead to is live. -/
structure EntityRun.Orderly (state : EntityRun) : Prop where
  heap : ∃ blocks, state.heap.Sound blocks
  small : state.mm.allocator.tail - state.mm.allocator.head ≤ 2 ^ 62
  room : ∀ a ∈ state.allocations, 16 ≤ a.room
  component : ∀ entity info, state.mm.components entity = some info →
    state.Alive entity ∧ ∃ a ∈ state.allocations, a.entity = entity ∧ a.info = info ∧ a.returned = 0
  freeList : FreeListEnds state

variable {state next : EntityRun} {a : Allocation} {mm mm' linked : EntityMemory} {info p n : Nat}
  {heap : BuddyHeap} {touched : Nat → Prop} {live : List (Nat × Nat)} {blocks : List Block}

/-! ### Links -/

section Links

/-- What a push does to the list of an entity is in the first 16 bytes of two allocations. -/
theorem addEntityAllocationLoop_frame {root fuel : Nat}
    (ran : addEntityAllocationLoop fuel mm (.info root) info = some mm') {x : Nat}
    (info_ : x < info ∨ info + 16 ≤ x) (root_ : x < root ∨ root + 16 ≤ x) : mm'.mem x = mm.mem x := by
  have link : ∀ {q : Nat} (mm : EntityMemory) (next : Nat), x < q ∨ q + 16 ≤ x →
      (setInfoNext mm q next).mem x = mm.mem x := fun mm next apart =>
    writeNat_changedWithin mm.mem _ 8 next x (by omega)
  induction fuel generalizing mm with
  | zero => cases ran
  | succ fuel ih =>
    rw [addEntityAllocationLoop] at ran
    dsimp only at ran
    generalize loadNext mm (.info root) = prevNext at ran
    have first := link mm prevNext info_
    split at ran
    · obtain rfl := Option.some.inj ran
      exact first
    · have second : (compareAndSwapNext (setInfoNext mm info prevNext)
        (.info root) info prevNext).1.mem x =
          mm.mem x := by
        unfold compareAndSwapNext
        dsimp only
        split
        · exact (link _ info root_).trans first
        · exact first
      split at ran
      · exact (ih ran).trans second
      · obtain rfl := Option.some.inj ran
        exact second

/-- Attaching an allocation writes to its header and to that of the first allocation of the entity. -/
theorem attachAllocation_frame {entity : Nat} (attached : attachAllocation mm entity info = some mm')
    {x : Nat} (info_ : x < info ∨ info + 16 ≤ x)
    (root_ : ∀ root, mm.components entity = some root → x < root ∨ root + 16 ≤ x) :
    mm'.mem x = mm.mem x := by
  unfold attachAllocation at attached
  split at attached
  · rename_i root here
    exact addEntityAllocationLoop_frame attached info_ (root_ root here)
  · obtain rfl := Option.some.inj attached
    rfl

/-- **A push onto the free list.** It ends in a list of one, which links to itself if the free list was not
empty. -/
theorem addEntityAllocation_freeList
    (keeps : HeapKeeps heap ⟨mm.mem, mm.allocator, live⟩ touched) (member : (info, n) ∈ live)
    (room : 16 ≤ n) (isTouched : touched info) (nonzero : info ≠ 0) (word : info < 2 ^ 64) :
    ∃ mm', addEntityAllocation mm .freeList info = some mm' ∧
      HeapKeeps heap ⟨mm'.mem, mm'.allocator, live⟩ touched ∧ mm'.freeListNext = info ∧
      mm'.allocator = mm.allocator ∧ mm'.components = mm.components ∧
      infoNext mm'.mem info = if mm.freeListNext = 0 then 0 else info := by
  have self : ∀ {mm : EntityMemory}, infoNext (setInfoNext mm info info).mem info = info :=
    infoNext_setInfoNext word
  by_cases empty : mm.freeListNext = 0
  · rw [if_pos empty]
    exact ⟨_, addEntityAllocation_empty empty nonzero, keeps.setInfoNext mm 0 member room isTouched, rfl,
      rfl, rfl, infoNext_setInfoNext (by norm_num)⟩
  · rw [if_neg empty]
    by_cases first : mm.freeListNext = info
    · refine ⟨setInfoNext mm info info, ?_, keeps.setInfoNext mm info member room isTouched, first,
        rfl, rfl, self⟩
      rw [addEntityAllocation, addEntityAllocationLoop]
      simp only [loadNext, first, if_true]
    · -- the first round swaps, the second one finds `info` itself
      let swapped := { setInfoNext mm info mm.freeListNext with freeListNext := info }
      have linked := keeps.setInfoNext mm mm.freeListNext member room isTouched
      refine ⟨setInfoNext swapped info info, ?_,
        HeapKeeps.setInfoNext swapped info linked member room isTouched, rfl, rfl, rfl, self⟩
      rw [addEntityAllocation, addEntityAllocationLoop]
      simp only [loadNext, compareAndSwapNext, setNext, setInfoNext, if_neg first, if_true, ne_eq, empty,
        not_false_eq_true, addEntityAllocationLoop]
      rfl

/-- **The collector does not come back** from an allocation that links to itself. -/
theorem collectLoop_self {allocator : BuddyAlloc} (aligned : allocator.alignment = 16) (low : 16 ≤ p)
    (fuel : Nat) {mem : Mem} (loop : infoNext mem p = p) : collectLoop allocator fuel mem p = none := by
  induction fuel generalizing mem with
  | zero => rfl
  | succ fuel ih =>
    rw [collectLoop, if_neg (by omega), buddyAllocRealloc, if_neg (by omega), if_pos rfl, aligned]
    split
    · have change := setBlockIsFree_changedWithin mem (p - 16) true
      have same : infoNext (setBlockIsFree mem (p - 16) true) p = infoNext mem p :=
        readNat_congr (change.same (Or.inr (by omega)))
      rw [Option.bind_some, same, loop, ih (same.trans loop)]
      rfl
    · rfl

end Links

/-! ### The contract -/

section Contract

/-- **What is behind the headers of the live allocations stays** until the copy. -/
theorem entityAllocLinked_same (sound : BuddyHeap.Sound ⟨mm.mem, mm.allocator, live⟩ blocks)
    {entity newsize : Nat} (nonzero : newsize ≠ 0) (small : entityAllocationInfoSize + newsize ≤ 2 ^ 62)
    (roots : ∀ root, mm.components entity = some root → ∃ rootRoom, (root, rootRoom) ∈ live ∧
      16 ≤ rootRoom)
    (ran : entityAllocLinked mm entity newsize = some (linked, info)) (member : (p, n) ∈ live) :
    Same mm.mem linked.mem (p + 16) (n - 16) := by
  have full : entityAlloc mm entity 0 0 newsize = some (linked, info + entityAllocationInfoSize) := by
    rw [entityAlloc_linked mm nonzero, ran]
    rfl
  obtain ⟨info', same, space, keeps, -⟩ :=
    entityAlloc_keeps sound nonzero small roots (fun copied => absurd rfl copied) full
  obtain rfl := Nat.add_right_cancel same
  obtain ⟨blocks', sound'⟩ := keeps.sound
  -- the new allocation is apart from the old ones, and those from each other
  have new := List.mem_append_right live
    (List.mem_singleton_self (info, blockRoom mm.allocator newsize))
  have fresh : p ≠ info := by
    rintro rfl
    have distinct := sound'.distinct
    rw [List.map_append, List.map_singleton, List.nodup_append] at distinct
    exact distinct.2.2 _ (List.mem_map_of_mem member) _ (List.mem_singleton_self _) rfl
  have fromNew := sound'.live_apart (keeps.live _ member) new fresh
  have size : (entityAllocationInfoSize + newsize) % 2 ^ 64 = entityAllocationInfoSize + newsize :=
    Nat.mod_eq_of_lt (by omega)
  rw [entityAllocLinked, size] at ran
  obtain ⟨found, granted, rest⟩ := Option.bind_eq_some_iff.mp ran
  obtain ⟨nonnull, rest⟩ := Option.ite_none_left_eq_some.mp rest
  obtain ⟨attached, attach, pair⟩ := Option.map_eq_some_iff.mp rest
  obtain ⟨rfl, place⟩ := Prod.mk.inj pair
  have stepped : buddyStep ⟨mm.mem, mm.allocator, live⟩
      (.allocate (entityAllocationInfoSize + newsize)) =
      some ⟨found.1, mm.allocator, if found.2 = 0 then live
        else live ++ [(found.2, entityAllocationInfoSize + newsize)]⟩ := by
    rw [buddyStep, if_pos small, granted]
    rfl
  obtain ⟨_, kept⟩ := buddyStep_keeps sound stepped
  have before := kept.others.live p n member fun freed => by cases freed
  intro x low high
  have outsideInfo : x < info ∨ info + 16 ≤ x := by omega
  have outsideRoot : ∀ root, mm.components entity = some root → x < root ∨ root + 16 ≤ x := by
    intro root here
    obtain ⟨rootRoom, rootLive, rootSpace⟩ := roots root here
    by_cases this : p = root
    · omega
    · have fromRoot := sound.live_apart member rootLive this
      omega
  have links := attachAllocation_frame attach (by rw [place]; exact outsideInfo) outsideRoot
  have sized := writeNat_changedWithin (setInfoNext { mm with mem := found.1 } found.2 0).mem found.2 8
    (entityAllocationInfoSize + newsize) x (by rw [place]; omega)
  have nexted := writeNat_changedWithin found.1 (found.2 + 8) 8 0 x (by rw [place]; omega)
  calc attached.mem x = _ := links
    _ = _ := sized
    _ = found.1 x := nexted
    _ = mm.mem x := before x (by omega) (by omega)

/-- A component leads to a live allocation with room for its header. -/
theorem EntityRun.Orderly.roots (orderly : state.Orderly) (entity root : Nat)
    (here : state.mm.components entity = some root) :
    ∃ rootRoom, (root, rootRoom) ∈ state.live ∧ 16 ≤ rootRoom := by
  obtain ⟨-, a, member, -, rfl, live⟩ := orderly.component entity root here
  exact ⟨a.room, mem_live member live, orderly.room a member⟩

/-- **The contract of a resize** in a state that is in order. -/
theorem EntityRun.Orderly.resized (orderly : state.Orderly) {entity ptr prevsize newsize : Nat}
    (prior : state.Prior ptr prevsize) (nonzero : 0 < newsize)
    (small : entityAllocationInfoSize + newsize ≤ 2 ^ 62)
    (ran : entityAllocLinked state.mm entity newsize = some (linked, info)) :
    Resized state.mm.mem (copyPrevious linked info ptr prevsize).mem
      (entityCopyStores linked info ptr prevsize) ptr prevsize
        (info + entityAllocationInfoSize) newsize ↔
      prevsize ≤ newsize := by
  obtain ⟨a, member, notReturned, rfl, fits⟩ := prior
  have header : entityAllocationInfoSize = 16 := rfl
  obtain ⟨blocks, sound⟩ := orderly.heap
  have same := entityAllocLinked_same sound nonzero.ne' small (orderly.roots entity) ran
    (mem_live member notReturned)
  have old : linked.mem.load (a.info + entityAllocationInfoSize) prevsize =
      state.mm.mem.load (a.info + entityAllocationInfoSize) prevsize :=
    load_congr (same.part (by omega) (by omega))
  rw [copyPrevious_stores, entityCopyStores]
  by_cases empty : prevsize = 0
  · subst empty
    rw [if_neg (not_not.mpr rfl)]
    refine iff_of_true ⟨?_, fun w member => absurd member List.not_mem_nil⟩ (Nat.zero_le _)
    rw [Nat.zero_min]
    rfl
  · rw [if_pos empty]
    exact @resized_iff _ linked.mem [] _ _ _ _ _ (fun w member => absurd member List.not_mem_nil) old

end Contract

/-! ### Steps -/

section Steps

/-- The block of a request has room for it. -/
theorem blockRoom_ge {blocks : List Block} (sound : state.heap.Sound blocks) {newsize : Nat}
    (small : entityAllocationInfoSize + newsize ≤ 2 ^ 62) :
    entityAllocationInfoSize + newsize ≤ blockRoom state.mm.allocator newsize := by
  have aligned : state.mm.allocator.alignment = 16 := sound.aligned
  obtain ⟨k, required, enough⟩ := sizeReq_spec aligned small
  rw [blockRoom, required, Option.getD_some]
  have header : buddyBlockSize = 16 := rfl
  omega

/-- **A pass of the collector**, if it comes back. -/
theorem collect_orderly (orderly : state.Orderly) (stepped : entityStep state .collect = some next) :
    next.Orderly := by
  obtain ⟨blocks, sound⟩ := orderly.heap
  have notPending : ∀ {entity : Nat}, state.Alive entity ↔ entity ∉ ([] : List Nat) ∧
      entity ∉ state.swept ++ state.pending := by
    intro entity
    rw [List.mem_append, not_or]
    exact ⟨fun alive => ⟨List.not_mem_nil, alive.2, alive.1⟩, fun alive => ⟨alive.2.2, alive.2.1⟩⟩
  cases orderly.freeList with
  | empty freeListNext =>
    rw [entityStep, garbageCollectTask, collectLoop, if_pos freeListNext] at stepped
    cases stepped
    refine ⟨⟨blocks, sound⟩, orderly.small, orderly.room, fun entity info here => ?_, .empty rfl⟩
    obtain ⟨alive, found⟩ := orderly.component entity info here
    exact ⟨notPending.mp alive, found⟩
  | one a member freeListNext live gone last =>
    rcases last with last | loop
    · obtain ⟨mem', blocks', stepped', sound', members⟩ :=
        collect_one sound member freeListNext live (orderly.room a member) last
      cases stepped.symm.trans stepped'
      refine ⟨⟨blocks', sound'⟩, orderly.small, fun c inC => ?_, fun entity info here => ?_, .empty rfl⟩
      · rcases (members c).mp inC with rfl | ⟨inC, -⟩
        · exact orderly.room a member
        · exact orderly.room c inC
      · obtain ⟨alive, b, memberB, owner, info', liveB⟩ := orderly.component entity info here
        refine ⟨notPending.mp alive, b, (members b).mpr (Or.inr ⟨memberB, ?_⟩), owner, info', liveB⟩
        rintro rfl
        exact gone (owner ▸ alive)
    · have aligned : state.mm.allocator.alignment = 16 := sound.aligned
      rw [entityStep, garbageCollectTask, freeListNext,
        collectLoop_self aligned (live_low sound member live) _ loop] at stepped
      cases stepped

/-- **The loop of the destructor** pushes one allocation onto the free list, once or several times. -/
theorem dtorLoop_freeList (member : (info, n) ∈ live) (room : 16 ≤ n) (isTouched : touched info)
    (nonzero : info ≠ 0) (word : info < 2 ^ 64) : ∀ (count : Nat) {mm : EntityMemory},
    HeapKeeps heap ⟨mm.mem, mm.allocator, live⟩ touched →
    ∃ mm', dtorLoop (count + 1) mm info = some mm' ∧
      HeapKeeps heap ⟨mm'.mem, mm'.allocator, live⟩ touched ∧ mm'.freeListNext = info ∧
      mm'.allocator = mm.allocator ∧ mm'.components = mm.components ∧
      infoNext mm'.mem info = if mm.freeListNext = 0 ∧ count = 0 then 0 else info
  | 0, mm, keeps => by
    obtain ⟨mm', pushed, rest⟩ :=
      addEntityAllocation_freeList keeps member room isTouched nonzero word
    refine ⟨mm', ?_, by simpa using rest⟩
    rw [dtorLoop, pushed]
    rfl
  | count + 1, mm, keeps => by
    obtain ⟨mm₁, pushed, keeps₁, next₁, allocator₁, components₁, -⟩ :=
      addEntityAllocation_freeList keeps member room isTouched nonzero word
    obtain ⟨mm', ran, keeps', next, allocator, components, last⟩ :=
      dtorLoop_freeList member room isTouched nonzero word count keeps₁
    refine ⟨mm', ?_, keeps', next, allocator.trans allocator₁, components.trans components₁, ?_⟩
    · rw [dtorLoop, pushed]
      exact ran
    · simpa [next₁, nonzero] using last

/-- **A destructor call** on some components: the first one is pushed, as often as there are components. -/
theorem destroy_cases (orderly : state.Orderly) {entities : List Nat} {rest : List Nat}
    (stepped : entityStep state (.destroy entities) = some next)
    (pushes : entities.filterMap state.mm.components = info :: rest) :
    ∃ mm', ∃ a ∈ state.allocations,
      next = { state with mm := removeComponents mm' entities, pending := state.pending ++ entities } ∧
      a.info = info ∧ a.returned = 0 ∧ a.entity ∈ entities ∧
      HeapKeeps state.heap ⟨mm'.mem, mm'.allocator, state.live⟩ (fun _ => True) ∧
      mm'.freeListNext = info ∧ mm'.allocator = state.mm.allocator ∧
      mm'.components = state.mm.components ∧
      infoNext mm'.mem info = if state.mm.freeListNext = 0 ∧ rest.length = 0 then 0 else info := by
  obtain ⟨-, destroyed⟩ := Option.ite_none_right_eq_some.mp stepped
  obtain ⟨mm', ran, rfl⟩ := Option.map_eq_some_iff.mp destroyed
  obtain ⟨blocks, sound⟩ := orderly.heap
  obtain ⟨entity, inside, here⟩ := List.mem_filterMap.mp (pushes ▸ List.mem_cons_self)
  obtain ⟨-, a, member, owner, rfl, live⟩ := orderly.component entity info here
  have low := live_low sound member live
  obtain ⟨b, there, -, -, high⟩ := sound.live _ _ (mem_live member live)
  have place : state.mm.allocator.head ≤ a.info - 16 ∧
      a.info - 16 + b.size ≤ state.mm.allocator.tail := sound.tiles.block_le there
  have bounded : state.mm.allocator.tail ≤ 2 ^ 63 := sound.bounded
  obtain ⟨mm'', ran', keeps, next, allocator, components, last⟩ :=
    dtorLoop_freeList (mem_live member live) (orderly.room a member) trivial (by omega) (by omega)
      rest.length (HeapKeeps.refl sound fun _ => True)
  rw [pushes] at ran
  cases ran.symm.trans ran'
  exact ⟨mm', a, member, rfl, rfl, live, owner ▸ inside, keeps, next, allocator, components, last⟩

/-- **A destructor call** on any components. -/
theorem destroy_orderly (orderly : state.Orderly) {entities : List Nat}
    (stepped : entityStep state (.destroy entities) = some next) : next.Orderly := by
  have kept : ∀ {mm' : EntityMemory}, mm'.components = state.mm.components → ∀ entity info,
      (removeComponents mm' entities).components entity = some info →
      EntityRun.Alive { state with mm := mm', pending := state.pending ++ entities } entity ∧
        ∃ a ∈ state.allocations, a.entity = entity ∧ a.info = info ∧ a.returned = 0 := by
    intro mm' components entity info here
    obtain ⟨other, here⟩ := Option.ite_none_left_eq_some.mp here
    rw [components] at here
    obtain ⟨living, found⟩ := orderly.component entity info here
    exact ⟨alive_destroyed.mpr ⟨living, other⟩, found⟩
  cases pushes : entities.filterMap state.mm.components with
  | nil =>
    obtain ⟨-, destroyed⟩ := Option.ite_none_right_eq_some.mp stepped
    rw [pushes] at destroyed
    cases destroyed
    refine ⟨orderly.heap, orderly.small, orderly.room, kept rfl, ?_⟩
    cases orderly.freeList with
    | empty next => exact .empty next
    | one a member next live gone last =>
      exact .one a member next live (fun living => gone (alive_destroyed.mp living).1) last
  | cons info rest =>
    obtain ⟨mm', a, member, rfl, rfl, live, inside, keeps, next, allocator, components, last⟩ :=
      destroy_cases orderly stepped pushes
    obtain ⟨blocks', sound'⟩ := keeps.sound
    refine ⟨⟨blocks', sound'⟩, ?_, orderly.room, kept components, ?_⟩
    · show mm'.allocator.tail - mm'.allocator.head ≤ 2 ^ 62
      rw [allocator]
      exact orderly.small
    · refine .one a member next live (fun living => (alive_destroyed.mp living).2 inside) ?_
      show infoNext mm'.mem a.info = 0 ∨ infoNext mm'.mem a.info = a.info
      rw [last]
      split
      · exact Or.inl rfl
      · exact Or.inr rfl

/-- What the free list leads to is not touched by an allocation for a live entity. -/
theorem EntityRun.Orderly.untouched (orderly : state.Orderly) {entity room : Nat} {mm' : EntityMemory}
    (living : state.Alive entity) (member : a ∈ state.allocations) (live : a.returned = 0)
    (gone : ¬ state.Alive a.entity)
    (keeps : HeapKeeps state.heap ⟨mm'.mem, mm'.allocator, state.live ++ [(info, room)]⟩
      (fun p => p = info ∨ state.mm.components entity = some p)) :
    infoNext mm'.mem a.info = infoNext state.mm.mem a.info := by
  obtain ⟨blocks, sound⟩ := orderly.heap
  obtain ⟨blocks', sound'⟩ := keeps.sound
  have untouched : ¬ (a.info = info ∨ state.mm.components entity = some a.info) := by
    rintro (same | first)
    · exact live_fresh sound' member live same
    · obtain ⟨-, b, memberB, owner, same, liveB⟩ := orderly.component entity _ first
      rw [live_unique sound memberB member liveB live same] at owner
      exact gone (owner ▸ living)
  exact infoNext_congr (keeps.same _ _ (mem_live member live) untouched)
    (live_low sound member live) (orderly.room a member)

/-- **An allocation** that copies no more than it has room for. -/
theorem alloc_orderly (orderly : state.Orderly) {entity ptr prevsize newsize : Nat}
    (copies : prevsize ≠ 0 →
      entityAllocationInfoSize + prevsize ≤ blockRoom state.mm.allocator newsize)
    (stepped : entityStep state (.alloc entity ptr prevsize newsize) = some next) : next.Orderly := by
  obtain ⟨blocks, sound⟩ := orderly.heap
  rcases alloc_cases sound orderly.small (orderly.roots entity) copies stepped with
    rfl | ⟨mm', info, room, rfl, living, space, keeps, allocator, freeListNext, components⟩
  · exact orderly
  · obtain ⟨blocks', sound'⟩ := keeps.sound
    refine ⟨⟨blocks', ?_⟩, ?_, fun a member => ?_, fun e p here => ?_, ?_⟩
    · show BuddyHeap.Sound ⟨mm'.mem, mm'.allocator, EntityRun.live _⟩ blocks'
      rw [live_append]
      exact sound'
    · show mm'.allocator.tail - mm'.allocator.head ≤ 2 ^ 62
      rw [allocator]
      exact orderly.small
    · rcases List.mem_append.mp member with older | newest
      · exact orderly.room a older
      · rw [List.mem_singleton.mp newest]
        exact space
    · rcases component_attached components here with before | ⟨rfl, rfl⟩
      · obtain ⟨alive, a, member, rest⟩ := orderly.component e p before
        exact ⟨alive, a, List.mem_append_left _ member, rest⟩
      · exact ⟨living, _, List.mem_append_right _ (List.mem_singleton_self _), rfl, rfl, rfl⟩
    · cases orderly.freeList with
      | empty next => exact .empty (freeListNext.trans next)
      | one a member next live gone last =>
        have link := orderly.untouched living member live gone keeps
        exact .one a (List.mem_append_left _ member) (freeListNext.trans next) live gone
          (by rw [link]; exact last)

/-- A copy of an allocation that does not shrink fits. -/
theorem EntityRun.Orderly.copies (orderly : state.Orderly) {entity ptr prevsize newsize : Nat}
    (grows : prevsize ≤ newsize)
    (stepped : entityStep state (.alloc entity ptr prevsize newsize) = some next) :
    entityAllocationInfoSize + prevsize ≤ blockRoom state.mm.allocator newsize := by
  obtain ⟨⟨-, enough⟩, -⟩ := Option.ite_none_right_eq_some.mp stepped
  obtain ⟨blocks, sound⟩ := orderly.heap
  exact (Nat.add_le_add_left grows _).trans (blockRoom_ge sound (enough.trans orderly.small))

/-- **A write of a user** behind the header of an allocation. -/
theorem write_orderly (orderly : state.Orderly) {offset : Nat} {bytes : List UInt8}
    (stepped : entityCallStep state (.write info offset bytes) = some next) : next.Orderly := by
  obtain ⟨⟨behind, a, member, rfl, live, fits⟩, written⟩ := Option.ite_none_right_eq_some.mp stepped
  cases written
  have header : entityAllocationInfoSize = 16 := rfl
  obtain ⟨blocks, sound⟩ := orderly.heap
  obtain ⟨blocks', sound'⟩ := ((HeapKeeps.refl sound fun p => p = a.info).write
    (mem_live member live) rfl
    fits).sound
  refine ⟨⟨blocks', sound'⟩, orderly.small, orderly.room, orderly.component, ?_⟩
  cases orderly.freeList with
  | empty next => exact .empty next
  | one b memberB next liveB gone last =>
    have change := store_changedWithin state.mm.mem (a.info + offset) bytes
    have link : infoNext (state.mm.mem.store (a.info + offset) bytes) b.info =
        infoNext state.mm.mem b.info := by
      by_cases this : a = b
      · subst this
        exact readNat_congr (change.same (Or.inl (by omega)))
      · have roomB := orderly.room b memberB
        have apart := sound.live_apart (mem_live member live) (mem_live memberB liveB)
          fun same => this (live_unique sound member memberB live liveB same)
        exact readNat_congr (change.same (by omega))
    exact .one b memberB next liveB gone (by rw [← link] at last; exact last)

/-- **One step** keeps the order. -/
theorem entityCallStep_orderly (state : EntityRun) (call : EntityCall) (next : EntityRun)
    (orderly : state.Orderly) (grows : call.Grows) (stepped : entityCallStep state call = some next) :
    next.Orderly := by
  cases call with
  | op op =>
    cases op with
    | alloc entity ptr prevsize newsize =>
      exact alloc_orderly orderly (fun _ => orderly.copies grows stepped) stepped
    | destroy entities => exact destroy_orderly orderly stepped
    | collect => exact collect_orderly orderly stepped
  | write info offset bytes => exact write_orderly orderly stepped

end Steps

/-! ### The two procedures -/

/-- The start is in order. -/
theorem entityStart_orderly {palloc : BuddyAllocationProc} {mem : Mem} {mm : EntityMemory}
    (init : entityMemoryInit palloc mem = some mm) : (entityStart mm).Orderly := by
  have tended := entityStart_tended init
  obtain ⟨_, _, rfl⟩ := Option.map_eq_some_iff.mp init
  exact ⟨tended.heap, tended.small, tended.room, tended.component, .empty rfl⟩

/-- **The contract of a resize.** For a block that was handed out in a run on a new arena and not reset,
and for an allocation of a run on a new entity memory, a call that succeeds returns a block that starts
with the bytes of the old one, and writes (besides the allocator's headers and links) nothing outside of
it, if and only if the block does not shrink. -/
theorem resize_contract (mem : Mem) (ptr prevsize newsize : Nat) (nonzero : 0 < newsize) :
    (∀ (allocator : Realloc) (mem' : Mem) (size : Nat) (arena : Arena),
      arenaNew allocator mem size = some (mem', arena) →
      ∀ (ops : List ArenaProcOp) (s : ArenaState), (∀ op ∈ ops, op.Fits arena.endAddr) →
        run arenaProcStep ⟨mem', arena, []⟩ ops = some s →
        (ptr, prevsize) ∈ s.regions → arena.endAddr + newsize + 8 ≤ 2 ^ 62 →
          ∀ result, arenaProcAlloc s.mem s.arena ptr prevsize newsize = result → result.2.2 ≠ 0 →
            result.1 = s.mem.stores (arenaProcStores s.mem s.arena ptr prevsize newsize) ∧
            (Resized s.mem result.1 (arenaProcStores s.mem s.arena ptr prevsize newsize) ptr prevsize
              result.2.2 newsize ↔ prevsize ≤ newsize)) ∧
    (∀ (palloc : BuddyAllocationProc) (mm : EntityMemory),
      entityMemoryInit palloc mem = some mm →
      ∀ (calls : List EntityCall) (state : EntityRun), (∀ call ∈ calls, call.Grows) →
        run entityCallStep (entityStart mm) calls = some state →
        ∀ entity, state.Prior ptr prevsize →
          entityAllocationInfoSize + newsize ≤ state.mm.allocator.tail - state.mm.allocator.head →
          ∀ result, entityAlloc state.mm entity ptr prevsize newsize = some result →
            ∃ linked info, entityAllocLinked state.mm entity newsize = some (linked, info) ∧
              result.2 = info + entityAllocationInfoSize ∧
              result.1.mem = linked.mem.stores (entityCopyStores linked info ptr prevsize) ∧
              (Resized state.mm.mem result.1.mem (entityCopyStores linked info ptr prevsize) ptr prevsize
                result.2 newsize ↔ prevsize ≤ newsize)) := by
  constructor
  · rintro allocator mem' size arena made ops s fits ran prior fit _ rfl succeeds
    have filled := arenaProcRun_filled allocator made (by omega) fits ran
    exact ⟨arenaProcAlloc_stores succeeds, filled.resized prior nonzero fit succeeds⟩
  · intro palloc mm init calls state grows ran entity prior room result granted
    have along : Along entityCallStep (fun _ call => call.Grows) (entityStart mm) calls :=
      along_iff.mpr fun before call after split t _ => grows call (by
        rw [split]
        exact List.mem_append_right _ List.mem_cons_self)
    have orderly := run_invariant_along entityCallStep_orderly ran along (entityStart_orderly init)
    rw [entityAlloc_linked state.mm nonzero.ne'] at granted
    obtain ⟨⟨linked, info⟩, made, rfl⟩ := Option.map_eq_some_iff.mp granted
    exact ⟨linked, info, made, rfl, copyPrevious_stores linked info ptr prevsize,
      orderly.resized prior nonzero (room.trans orderly.small) made⟩

/-- A block of 16 bytes grows to 24 in an arena of 64, and an allocation of 10 bytes to 40. -/
theorem resize_contract_grown :
    (∃ s, run arenaProcStep ⟨Mem.store (fun _ => 0) 8 [], smallArena, []⟩ [.call (.alloc 16 8)] =
      some s ∧
      Resized s.mem (arenaProcAlloc s.mem s.arena 8 16 24).1 (arenaProcStores s.mem s.arena 8 16 24) 8 16
        (arenaProcAlloc s.mem s.arena 8 16 24).2.2 24) ∧
    ∃ mm state result, entityMemoryInit pagePalloc (fun _ => 0) = some mm ∧
      run entityCallStep (entityStart mm) [.op (.alloc 1 0 0 10)] = some state ∧
      entityAlloc state.mm 1 4194273 10 40 = some result ∧
      ∃ writes, Resized state.mm.mem result.1.mem writes 4194273 10 result.2 40 := by
  constructor
  · have made : arenaNew Realloc.single (fun _ => 0) 64 =
        some (Mem.store (fun _ => 0) 8 [], smallArena) := rfl
    refine ⟨_, rfl, (((resize_contract (fun _ => 0) 8 16 24
      (by decide)).1 Realloc.single _ 64 smallArena made
      [.call (.alloc 16 8)] _ ?_ rfl (by decide) (by decide) _ rfl (by decide)).2.mpr (by decide))⟩
    intro op member
    rw [List.mem_singleton.mp member]
    exact ⟨⟨3, rfl⟩, by decide⟩
  · have reaches : ((entityMemoryInit pagePalloc fun _ => 0).any fun mm =>
        (run entityCallStep (entityStart mm) [.op (.alloc 1 0 0 10)]).any fun state =>
          decide (state.Prior 4194273 10) && (decide (entityAllocationInfoSize + 40 ≤
            state.mm.allocator.tail - state.mm.allocator.head) &&
          (entityAlloc state.mm 1 4194273 10 40).isSome)) = true := by
      decide +kernel
    obtain ⟨mm, init, rest⟩ := (Option.any_eq_true _ _).mp reaches
    obtain ⟨state, ran, facts⟩ := (Option.any_eq_true _ _).mp rest
    obtain ⟨prior, facts⟩ := Bool.and_eq_true_iff.mp facts
    obtain ⟨room, ends⟩ := Bool.and_eq_true_iff.mp facts
    obtain ⟨result, granted⟩ := Option.isSome_iff_exists.mp ends
    obtain ⟨linked, info, -, -, -, contract⟩ :=
      (resize_contract (fun _ => 0) 4194273 10 40 (by decide)).2
      pagePalloc mm init _ state
      (fun call member => by rw [List.mem_singleton.mp member]; exact Nat.zero_le 10) ran 1
      (of_decide_eq_true prior) (of_decide_eq_true room) result granted
    exact ⟨mm, state, result, init, ran, granted, _, contract.mpr (by decide)⟩

/-- **A block that shrinks overruns the new one**: 16 bytes are copied into a block of one. -/
theorem shrink_overruns :
    ¬ ∀ (allocator : Realloc) (mem mem' : Mem) (size : Nat) (arena : Arena),
      arenaNew allocator mem size = some (mem', arena) →
      ∀ (ops : List ArenaProcOp) (s : ArenaState), (∀ op ∈ ops, op.Fits arena.endAddr) →
        run arenaProcStep ⟨mem', arena, []⟩ ops = some s →
        ∀ ptr prevsize newsize, (ptr, prevsize) ∈ s.regions → 0 < newsize →
          (arenaProcAlloc s.mem s.arena ptr prevsize newsize).2.2 ≠ 0 →
            Resized s.mem (arenaProcAlloc s.mem s.arena ptr prevsize newsize).1
              (arenaProcStores s.mem s.arena ptr prevsize newsize) ptr prevsize
              (arenaProcAlloc s.mem s.arena ptr prevsize newsize).2.2 newsize := by
  intro claimed
  have made : arenaNew Realloc.single (fun _ => 0) 64 =
      some (Mem.store (fun _ => 0) 8 [], smallArena) := rfl
  have fits : ∀ op ∈ [ArenaProcOp.call (.alloc 16 8)], op.Fits smallArena.endAddr := fun op member => by
    rw [List.mem_singleton.mp member]
    exact ⟨⟨3, rfl⟩, by decide⟩
  have ran : run arenaProcStep ⟨Mem.store (fun _ => 0) 8 [], smallArena, []⟩ [.call (.alloc 16 8)] =
      some ⟨Mem.store (Mem.store (fun _ => 0) 8 []) 8 (List.replicate 16 0), ⟨8, 24, 72⟩, [(8, 16)]⟩ :=
        rfl
  have filled := arenaProcRun_filled Realloc.single made (by decide) fits ran
  have resized := claimed Realloc.single _ _ 64 smallArena made _ _ fits ran 8 16 1
    (List.mem_singleton_self _) (by decide) (by decide)
  have grows := (filled.resized (List.mem_singleton_self _) (by decide) (by decide)
    (by decide)).mp resized
  exact absurd grows (by decide)

end Vaudou
