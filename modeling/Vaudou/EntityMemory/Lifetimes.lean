/-
**The lifetimes of entity allocations.**

A run allocates for live entities, destroys entities, and collects. `EntityRun` records beside the code's
state which allocations were made, and how often the pointer that the buddy allocator returned for each
was given back to it. `Reclaimed` is what the collector is for: the allocations of an entity that was
destroyed before the last pass have been given back exactly once, those of a live entity never.

The lists of the code lose allocations in three ways, and `Reclaimable` names the steps that do not:
a copy that overruns its block, a destructor call on more than one component or while the free list is
not empty, and a destroyed entity with more than one allocation.

* `entityRun_reclaimed` — along reclaimable steps, every run keeps `Reclaimed`, and the collector ends.
* `second_allocation_lost` — an entity with two allocations.
-/

import Vaudou.EntityMemory.Lists

namespace Vaudou

open Vaudou.Memory Vaudou.Run

/-- An allocation of an entity: the pointer the buddy allocator returned, the bytes of the block behind
its block header, and how often the pointer was given back. -/
structure Allocation where
  entity : Nat
  info : Nat
  room : Nat
  returned : Nat
deriving DecidableEq, Repr

/-- The memory, the allocations made, and the entities destroyed since and before the last pass. -/
structure EntityRun where
  mm : EntityMemory
  allocations : List Allocation
  pending : List Nat
  swept : List Nat

/-- What happens to entities. -/
inductive EntityOp where
  | alloc (entity ptr prevsize newsize : Nat)
  | destroy (entities : List Nat)
  | collect

/-- The entity has not been destroyed. -/
def EntityRun.Alive (state : EntityRun) (entity : Nat) : Prop :=
  entity ∉ state.pending ∧ entity ∉ state.swept

instance (state : EntityRun) (entity : Nat) : Decidable (state.Alive entity) :=
  inferInstanceAs (Decidable (_ ∧ _))

/-- A pointer is given back: to the allocation that has it, or once more to those that had it. -/
def giveBack (allocations : List Allocation) (p : Nat) : List Allocation :=
  if allocations.any fun a => a.info == p && a.returned == 0 then
    allocations.map fun a =>
      if a.info = p ∧ a.returned = 0 then { a with returned := 1 } else a
  else
    allocations.map fun a => if a.info = p then { a with returned := a.returned + 1 } else a

/-- The components of destroyed entities are removed. -/
def removeComponents (mm : EntityMemory) (entities : List Nat) : EntityMemory :=
  { mm with components := fun entity => if entity ∈ entities then none else mm.components entity }

/-- One step, with enough heap: a request fits in the heap, and the buddy allocator has a block. -/
def entityStep (state : EntityRun) : EntityOp → Option EntityRun
  | .alloc entity ptr prevsize newsize =>
    if state.Alive entity ∧ entityAllocationInfoSize + newsize ≤
        state.mm.allocator.tail - state.mm.allocator.head then
      (entityAlloc state.mm entity ptr prevsize newsize).map fun result =>
        { state with
          mm := result.1
          allocations := if result.2 = 0 then state.allocations else state.allocations ++
            [⟨entity, result.2 - entityAllocationInfoSize, blockRoom state.mm.allocator newsize, 0⟩] }
    else none
  | .destroy entities =>
    if entities.Nodup ∧ ∀ entity ∈ entities, state.Alive entity then
      (memoryComponentDtor state.mm (entities.filterMap state.mm.components)).map fun mm =>
        { state with mm := removeComponents mm entities, pending := state.pending ++ entities }
    else none
  | .collect =>
    (garbageCollectTask state.mm).map fun result =>
      { mm := result.1
        allocations := result.2.foldl giveBack state.allocations
        pending := []
        swept := state.swept ++ state.pending }

/-- The state after `vd_mm_init`. -/
def entityStart (mm : EntityMemory) : EntityRun := ⟨mm, [], [], []⟩

/-- **Reclaimed exactly once and never early.** -/
def EntityRun.Reclaimed (state : EntityRun) : Prop :=
  ∀ a ∈ state.allocations, (a.entity ∈ state.swept → a.returned = 1) ∧
    (state.Alive a.entity → a.returned = 0)

/-- A step that loses no allocation: what is copied fits in the new block; and the destructor is called
on one component at most, of an entity with one allocation, when the free list is empty. -/
def Reclaimable (state : EntityRun) : EntityOp → Prop
  | .alloc _ _ prevsize newsize => prevsize ≠ 0 →
    entityAllocationInfoSize + prevsize ≤ blockRoom state.mm.allocator newsize
  | .destroy entities => ∀ entity ∈ entities, ∀ info ∈ state.mm.components entity,
    entities.filterMap state.mm.components = [info] ∧ state.mm.freeListNext = 0 ∧
      (state.allocations.filter fun a => a.entity == entity).length = 1
  | .collect => True

instance (state : EntityRun) : ∀ op, Decidable (Reclaimable state op)
  | .alloc .. => inferInstanceAs (Decidable (_ → _))
  | .destroy entities => inferInstanceAs (Decidable (∀ entity ∈ entities, _))
  | .collect => inferInstanceAs (Decidable True)

instance (state : EntityRun) : Decidable state.Reclaimed :=
  inferInstanceAs (Decidable (∀ a ∈ state.allocations, _))

/-- The allocations that have not been given back. -/
def EntityRun.live (state : EntityRun) : List (Nat × Nat) :=
  (state.allocations.filter fun a => a.returned == 0).map fun a => (a.info, a.room)

/-- The heap of the run. -/
def EntityRun.heap (state : EntityRun) : BuddyHeap :=
  ⟨state.mm.mem, state.mm.allocator, state.live⟩

/-- The free list is empty and no destroyed entity waits, or it is the one allocation of the one
destroyed entity that waits. -/
inductive FreeListHolds (state : EntityRun) : Prop
  | empty (next : state.mm.freeListNext = 0)
      (none : ∀ a ∈ state.allocations, a.entity ∉ state.pending)
  | one (a : Allocation) (member : a ∈ state.allocations) (next : state.mm.freeListNext = a.info)
      (live : a.returned = 0) (waits : a.entity ∈ state.pending)
      (last : infoNext state.mm.mem a.info = 0)
      (only : ∀ b ∈ state.allocations, b.entity ∈ state.pending → b = a)

/-- **The invariant of the runs that lose no allocation.** -/
structure EntityRun.Tended (state : EntityRun) : Prop where
  heap : ∃ blocks, state.heap.Sound blocks
  small : state.mm.allocator.tail - state.mm.allocator.head ≤ 2 ^ 62
  room : ∀ a ∈ state.allocations, 16 ≤ a.room
  component : ∀ entity info, state.mm.components entity = some info →
    state.Alive entity ∧ ∃ a ∈ state.allocations, a.entity = entity ∧ a.info = info ∧ a.returned = 0
  alive : ∀ a ∈ state.allocations, state.Alive a.entity →
    a.returned = 0 ∧ state.mm.components a.entity ≠ none
  swept : ∀ a ∈ state.allocations, a.entity ∈ state.swept → a.returned = 1
  once : ∀ entity ∈ state.pending, entity ∉ state.swept
  freeList : FreeListHolds state

variable {state next : EntityRun} {a b : Allocation}

/-! ### Live allocations -/

section Live

theorem mem_live (member : a ∈ state.allocations) (notReturned : a.returned = 0) :
    (a.info, a.room) ∈ state.live :=
  List.mem_map.mpr ⟨a, List.mem_filter.mpr ⟨member, by simpa using notReturned⟩, rfl⟩

/-- Two live allocations of a sound heap at one address are the same. -/
theorem live_unique {blocks : List Block} (sound : state.heap.Sound blocks)
    (memberA : a ∈ state.allocations) (memberB : b ∈ state.allocations) (liveA : a.returned = 0)
    (liveB : b.returned = 0) (same : a.info = b.info) : a = b := by
  have distinct : ((state.allocations.filter fun a => a.returned == 0).map
      Allocation.info).Nodup := by
    have nodup := sound.distinct
    change (state.live.map Prod.fst).Nodup at nodup
    rw [EntityRun.live, List.map_map] at nodup
    exact nodup
  exact List.inj_on_of_nodup_map distinct (List.mem_filter.mpr ⟨memberA, by simpa using liveA⟩)
    (List.mem_filter.mpr ⟨memberB, by simpa using liveB⟩) same

/-- Two live allocations at one address are the same. -/
theorem EntityRun.Tended.unique (tended : state.Tended) (memberA : a ∈ state.allocations)
    (memberB : b ∈ state.allocations) (liveA : a.returned = 0) (liveB : b.returned = 0)
    (same : a.info = b.info) : a = b := by
  obtain ⟨blocks, sound⟩ := tended.heap
  exact live_unique sound memberA memberB liveA liveB same

/-- A live allocation of a sound heap has an address of at least 16. -/
theorem live_low {blocks : List Block} (sound : state.heap.Sound blocks)
    (member : a ∈ state.allocations) (notReturned : a.returned = 0) : 16 ≤ a.info := by
  obtain ⟨-, -, -, low, -⟩ := sound.live _ _ (mem_live member notReturned)
  exact low

/-- A live allocation has an address of at least 16. -/
theorem EntityRun.Tended.low (tended : state.Tended) (member : a ∈ state.allocations)
    (notReturned : a.returned = 0) : 16 ≤ a.info := by
  obtain ⟨blocks, sound⟩ := tended.heap
  exact live_low sound member notReturned

/-- A live allocation is elsewhere than the one that joins the live ones. -/
theorem live_fresh {mem : Mem} {allocator : BuddyAlloc} {info room : Nat} {blocks : List Block}
    (sound : BuddyHeap.Sound ⟨mem, allocator, state.live ++ [(info, room)]⟩ blocks)
    (member : a ∈ state.allocations) (notReturned : a.returned = 0) : a.info ≠ info := by
  rintro rfl
  have distinct := sound.distinct
  rw [List.map_append, List.map_singleton, List.nodup_append] at distinct
  have old : a.info ∈ state.live.map Prod.fst :=
    List.mem_map_of_mem (mem_live member notReturned)
  exact distinct.2.2 _ old _ (List.mem_singleton_self _) rfl

/-- The new allocation is the last of the live ones. -/
theorem live_append (state : EntityRun) (mm : EntityMemory) (entity info room : Nat) :
    EntityRun.live { state with
      mm := mm
      allocations := state.allocations ++ [⟨entity, info, room, 0⟩] } =
    state.live ++ [(info, room)] := by
  rw [EntityRun.live, List.filter_append, List.map_append]
  rfl

/-- **The runs that are tended are reclaimed.** -/
theorem EntityRun.Tended.reclaimed (tended : state.Tended) : state.Reclaimed := fun a member =>
  ⟨tended.swept a member, fun alive => (tended.alive a member alive).1⟩

end Live

/-! ### Giving back -/

section Returning

/-- A pointer to a live allocation is given back to it. -/
theorem giveBack_live (member : a ∈ state.allocations) (notReturned : a.returned = 0) :
    giveBack state.allocations a.info = state.allocations.map fun b =>
      if b.info = a.info ∧ b.returned = 0 then { b with returned := 1 } else b :=
  if_pos (List.any_eq_true.mpr ⟨a, member, by simp [notReturned]⟩)

/-- It leaves the live allocations. -/
theorem live_giveBack (p : Nat) : ∀ allocations : List Allocation,
    ((allocations.map fun b => if b.info = p ∧ b.returned = 0 then { b with returned := 1 } else b)
      |>.filter fun a => a.returned == 0).map (fun a => (a.info, a.room)) =
    ((allocations.filter fun a => a.returned == 0).map fun a => (a.info, a.room)).filter
      (·.1 != p)
  | [] => rfl
  | ⟨entity, info, room, 0⟩ :: rest => by
    have later := live_giveBack p rest
    by_cases same : info = p
    · simpa [same] using later
    · simpa [same] using later
  | ⟨entity, info, room, returned + 1⟩ :: rest => by
    have later := live_giveBack p rest
    simpa using later

/-- The state after a pass of the collector over a list of one. -/
def EntityRun.collected (state : EntityRun) (mem : Mem) (p : Nat) : EntityRun :=
  ⟨⟨mem, state.mm.allocator, 0, state.mm.components⟩, giveBack state.allocations p, [],
    state.swept ++ state.pending⟩

/-- **A pass over a list of one** gives it back; the other allocations stay. -/
theorem collect_one {blocks : List Block} (sound : state.heap.Sound blocks)
    (member : a ∈ state.allocations) (freeListNext : state.mm.freeListNext = a.info)
    (live : a.returned = 0) (room : 16 ≤ a.room) (last : infoNext state.mm.mem a.info = 0) :
    ∃ mem' blocks', entityStep state .collect = some (state.collected mem' a.info) ∧
      (state.collected mem' a.info).heap.Sound blocks' ∧
      ∀ c, c ∈ giveBack state.allocations a.info ↔
        c = { a with returned := 1 } ∨ (c ∈ state.allocations ∧ c ≠ a) := by
  have lived := mem_live member live
  have low := live_low sound member live
  obtain ⟨fuel, enough⟩ : ∃ fuel, state.mm.allocator.tail - state.mm.allocator.head + 1 =
      fuel + 2 := by
    obtain ⟨b, there, used, lowB, highB⟩ := sound.live _ _ lived
    have place : state.mm.allocator.head ≤ a.info - 16 ∧
        a.info - 16 + b.size ≤ state.mm.allocator.tail := sound.tiles.block_le there
    have wide := b.size_ge
    exact ⟨state.mm.allocator.tail - state.mm.allocator.head - 1, by omega⟩
  obtain ⟨mem', blocks', ran, sound'⟩ := collectLoop_single sound lived room last fuel
  have returned := giveBack_live member live
  -- the records: only `a` changes
  have record : ∀ b ∈ state.allocations,
      (if b.info = a.info ∧ b.returned = 0 then { b with returned := 1 } else b) =
        if b = a then { a with returned := 1 } else b := by
    intro b memberB
    by_cases same : b = a
    · subst same
      rw [if_pos ⟨rfl, live⟩, if_pos rfl]
    · rw [if_neg same, if_neg]
      rintro ⟨info, liveB⟩
      exact same (live_unique sound memberB member liveB live info)
  refine ⟨mem', blocks', ?_, ?_, fun c => ?_⟩
  · rw [entityStep, garbageCollectTask, enough, freeListNext, ran]
    rfl
  · have same : (state.collected mem' a.info).live = state.live.filter (·.1 != a.info) := by
      rw [EntityRun.live, EntityRun.collected, returned]
      exact live_giveBack a.info state.allocations
    show BuddyHeap.Sound ⟨mem', state.mm.allocator, (state.collected mem' a.info).live⟩ blocks'
    rw [same]
    exact sound'
  · rw [returned, List.map_congr_left record, List.mem_map]
    constructor
    · rintro ⟨b, memberB, rfl⟩
      split
      · exact Or.inl rfl
      · rename_i other
        exact Or.inr ⟨memberB, other⟩
    · rintro (rfl | ⟨memberC, other⟩)
      · exact ⟨a, member, if_pos rfl⟩
      · exact ⟨c, memberC, if_neg other⟩

/-- **A pass of the collector** ends and keeps the run tended. -/
theorem collect_tended (tended : state.Tended) :
    ∃ next, entityStep state .collect = some next ∧ next.Tended := by
  obtain ⟨blocks, sound⟩ := tended.heap
  have swept_alive : ∀ {entity : Nat}, entity ∉ ([] : List Nat) ∧
      entity ∉ state.swept ++ state.pending → state.Alive entity := fun alive =>
    ⟨fun waits => alive.2 (List.mem_append_right _ waits),
      fun gone => alive.2 (List.mem_append_left _ gone)⟩
  have alive_swept : ∀ {entity : Nat}, state.Alive entity → entity ∉ ([] : List Nat) ∧
      entity ∉ state.swept ++ state.pending := fun alive =>
    ⟨List.not_mem_nil, fun gone => (List.mem_append.mp gone).elim alive.2 alive.1⟩
  cases tended.freeList with
  | empty freeListNext none =>
    refine ⟨_, by rw [entityStep, garbageCollectTask, collectLoop, if_pos freeListNext]; rfl, ?_⟩
    refine ⟨⟨blocks, sound⟩, tended.small, tended.room, fun entity info here => ?_,
      fun a member alive => tended.alive a member (swept_alive alive), fun a member gone => ?_,
      fun entity waits => absurd waits List.not_mem_nil,
      .empty rfl fun a _ => List.not_mem_nil⟩
    · obtain ⟨alive, found⟩ := tended.component entity info here
      exact ⟨alive_swept alive, found⟩
    · rcases List.mem_append.mp gone with gone | waits
      · exact tended.swept a member gone
      · exact absurd waits (none a member)
  | one a member freeListNext live waits last only =>
    obtain ⟨mem', blocks', stepped, sound', members⟩ :=
      collect_one sound member freeListNext live (tended.room a member) last
    refine ⟨_, stepped, ⟨blocks', sound'⟩, tended.small, fun c inC => ?_, fun entity info here => ?_,
      fun c inC alive => ?_, fun c inC gone => ?_, fun entity waits => absurd waits List.not_mem_nil,
      .empty rfl fun a _ => List.not_mem_nil⟩
    · rcases (members c).mp inC with rfl | ⟨inC, -⟩
      · exact tended.room a member
      · exact tended.room c inC
    · obtain ⟨alive, b, memberB, owner, info', liveB⟩ := tended.component entity info here
      refine ⟨alive_swept alive, b, (members b).mpr (Or.inr ⟨memberB, ?_⟩), owner, info', liveB⟩
      rintro rfl
      exact alive.1 (owner ▸ waits)
    · rcases (members c).mp inC with rfl | ⟨inC, -⟩
      · exact absurd waits (swept_alive alive).1
      · exact tended.alive c inC (swept_alive alive)
    · rcases (members c).mp inC with rfl | ⟨inC, other⟩
      · rfl
      · rcases List.mem_append.mp gone with gone | waitsC
        · exact tended.swept c inC gone
        · exact absurd (only c inC waitsC) other

end Returning

/-! ### Destroying -/

section Destroying

/-- Where one value comes out of a list, one element has it. -/
theorem filterMap_singleton {α β : Type} {f : α → Option β} {x : β} : ∀ {members : List α},
    members.filterMap f = [x] → ∀ {y z : α}, y ∈ members → z ∈ members → f y ≠ none →
      f z ≠ none → y = z
  | [], single, _, _, _, _, _, _ => nomatch single
  | w :: rest, single, y, z, inY, inZ, someY, someZ => by
    cases value : f w with
    | none =>
      rw [List.filterMap_cons_none value] at single
      have later : ∀ {v}, v ∈ w :: rest → f v ≠ none → v ∈ rest := by
        intro v member some
        rcases List.mem_cons.mp member with rfl | member
        · exact absurd value some
        · exact member
      exact filterMap_singleton single (later inY someY) (later inZ someZ) someY someZ
    | some first =>
      rw [List.filterMap_cons_some value] at single
      have nothing : rest.filterMap f = [] := (List.cons.inj single).2
      have here : ∀ {v}, v ∈ w :: rest → f v ≠ none → v = w := by
        intro v member some
        rcases List.mem_cons.mp member with rfl | member
        · rfl
        · exact absurd (List.filterMap_eq_nil_iff.mp nothing v member) some
      rw [here inY someY, here inZ someZ]

/-- Destroyed entities are not alive, and the others are as before. -/
theorem alive_destroyed {entities : List Nat} {mm' : EntityMemory} {entity : Nat} :
    EntityRun.Alive { state with mm := mm', pending := state.pending ++ entities } entity ↔
      state.Alive entity ∧ entity ∉ entities := by
  unfold EntityRun.Alive
  rw [List.mem_append]
  constructor
  · rintro ⟨waits, gone⟩
    exact ⟨⟨fun member => waits (Or.inl member), gone⟩, fun member => waits (Or.inr member)⟩
  · rintro ⟨⟨waits, gone⟩, other⟩
    exact ⟨fun member => member.elim waits other, gone⟩

/-- What a destructor call keeps, whatever it does to the free list. -/
theorem EntityRun.Tended.destroy (tended : state.Tended) {entities : List Nat} {mm' : EntityMemory}
    (alive : ∀ entity ∈ entities, state.Alive entity)
    (heap : ∃ blocks, BuddyHeap.Sound ⟨mm'.mem, mm'.allocator, state.live⟩ blocks)
    (allocator : mm'.allocator = state.mm.allocator)
    (components : mm'.components = state.mm.components)
    (freeList : FreeListHolds
      { state with mm := removeComponents mm' entities, pending := state.pending ++ entities }) :
    EntityRun.Tended
      { state with mm := removeComponents mm' entities, pending := state.pending ++ entities } where
  heap := heap
  small := by
    show mm'.allocator.tail - mm'.allocator.head ≤ 2 ^ 62
    rw [allocator]
    exact tended.small
  room := tended.room
  component entity info here := by
    change (if entity ∈ entities then none else mm'.components entity) = some info at here
    obtain ⟨kept, here⟩ := Option.ite_none_left_eq_some.mp here
    rw [components] at here
    obtain ⟨living, found⟩ := tended.component entity info here
    exact ⟨alive_destroyed.mpr ⟨living, kept⟩, found⟩
  alive a member living := by
    obtain ⟨living, kept⟩ := alive_destroyed.mp living
    obtain ⟨live, present⟩ := tended.alive a member living
    refine ⟨live, ?_⟩
    show (if a.entity ∈ entities then none else mm'.components a.entity) ≠ none
    rw [if_neg kept, components]
    exact present
  swept := tended.swept
  once entity waits := by
    rcases List.mem_append.mp waits with waits | member
    · exact tended.once entity waits
    · exact (alive entity member).2
  freeList := freeList

/-- **A destructor call** on one component at most keeps the run tended. -/
theorem destroy_tended (tended : state.Tended) {entities : List Nat}
    (reclaimable : Reclaimable state (.destroy entities))
    (stepped : entityStep state (.destroy entities) = some next) : next.Tended := by
  obtain ⟨⟨-, alive⟩, destroyed⟩ := Option.ite_none_right_eq_some.mp stepped
  obtain ⟨mm', ran, rfl⟩ := Option.map_eq_some_iff.mp destroyed
  obtain ⟨blocks, sound⟩ := tended.heap
  by_cases bare : ∀ entity ∈ entities, state.mm.components entity = none
  · -- no component: the destructor does nothing, and no allocation belongs to the entities
    rw [List.filterMap_eq_nil_iff.mpr bare] at ran
    obtain rfl := Option.some.inj ran
    have unowned : ∀ a ∈ state.allocations, a.entity ∉ entities := fun a member inside =>
      (tended.alive a member (alive _ inside)).2 (bare _ inside)
    refine tended.destroy alive ⟨blocks, sound⟩ rfl rfl ?_
    cases tended.freeList with
    | empty freeListNext nothing =>
      refine .empty freeListNext fun a member waits => ?_
      exact (List.mem_append.mp waits).elim (nothing a member) (unowned a member)
    | one a member freeListNext live waits last only =>
      refine .one a member freeListNext live (List.mem_append_left _ waits) last
        fun b memberB waitsB => ?_
      exact (List.mem_append.mp waitsB).elim (only b memberB)
        fun inside => absurd inside (unowned b memberB)
  · obtain ⟨entity, inside, present⟩ := not_forall₂.mp bare
    obtain ⟨info, here⟩ := Option.ne_none_iff_exists'.mp present
    obtain ⟨single, freeListNext, one⟩ := reclaimable entity inside info here
    obtain ⟨-, a, member, owner, rfl, live⟩ := tended.component entity info here
    have low := tended.low member live
    rw [single] at ran
    have pushed : memoryComponentDtor state.mm [a.info] =
        some { setInfoNext state.mm a.info 0 with freeListNext := a.info } := by
      rw [memoryComponentDtor]
      show (addEntityAllocation state.mm .freeList a.info).bind _ = _
      rw [addEntityAllocation_empty freeListNext (by omega)]
      rfl
    rw [pushed] at ran
    obtain rfl := Option.some.inj ran
    have written := (HeapKeeps.refl sound fun _ => True).setInfoNext state.mm 0
      (mem_live member live) (tended.room a member) trivial
    refine tended.destroy alive written.sound rfl rfl ?_
    refine .one a member rfl live (List.mem_append_right _ (owner ▸ inside))
      (infoNext_setInfoNext (by norm_num)) fun b memberB waitsB => ?_
    rcases List.mem_append.mp waitsB with waits | insideB
    · -- nothing was waiting
      cases tended.freeList with
      | empty _ nothing => exact absurd waits (nothing b memberB)
      | one c memberC nextC liveC _ _ _ =>
        have := tended.low memberC liveC
        omega
    · -- the entity of `b` has a component, so it is the entity of `a`, which has one allocation
      have same : b.entity = entity := filterMap_singleton single insideB inside
        (tended.alive b memberB (alive _ insideB)).2 present
      obtain ⟨c, only⟩ := List.length_eq_one_iff.mp one
      have ofEntity : ∀ d ∈ state.allocations, d.entity = entity → d = c := by
        intro d memberD ownerD
        have inFilter : d ∈ state.allocations.filter fun a => a.entity == entity :=
          List.mem_filter.mpr ⟨memberD, by simpa using ownerD⟩
        rw [only] at inFilter
        exact List.mem_singleton.mp inFilter
      rw [ofEntity b memberB same, ofEntity a member owner]

end Destroying

/-! ### Allocating -/

section Allocating

variable {before after : Nat → Option Nat} {entity info : Nat}

/-- A component after an allocation was there before, or is the new one. -/
theorem component_attached (change : before entity ≠ none ∧ after = before ∨
      before entity = none ∧ after = Function.update before entity (some info))
    {e p : Nat} (here : after e = some p) : before e = some p ∨ e = entity ∧ p = info := by
  rcases change with ⟨-, rfl⟩ | ⟨-, rfl⟩
  · exact Or.inl here
  · by_cases this : e = entity
    · subst this
      rw [Function.update_self] at here
      exact Or.inr ⟨rfl, (Option.some.inj here).symm⟩
    · rw [Function.update_of_ne this] at here
      exact Or.inl here

/-- After an allocation its entity has a component, and the others keep theirs. -/
theorem component_stays (change : before entity ≠ none ∧ after = before ∨
      before entity = none ∧ after = Function.update before entity (some info))
    {e : Nat} (had : before e ≠ none ∨ e = entity) : after e ≠ none := by
  rcases change with ⟨present, rfl⟩ | ⟨-, rfl⟩
  · rcases had with had | rfl
    · exact had
    · exact present
  · by_cases this : e = entity
    · subst this
      rw [Function.update_self]
      exact Option.some_ne_none info
    · rw [Function.update_of_ne this]
      exact had.resolve_right this

/-- **A step that allocates** does nothing, or adds an allocation in a block of its own. -/
theorem alloc_cases {blocks : List Block} (sound : state.heap.Sound blocks)
    (small : state.mm.allocator.tail - state.mm.allocator.head ≤ 2 ^ 62)
    (roots : ∀ root, state.mm.components entity = some root →
      ∃ rootRoom, (root, rootRoom) ∈ state.live ∧ 16 ≤ rootRoom)
    {ptr prevsize newsize : Nat}
    (copies : prevsize ≠ 0 →
      entityAllocationInfoSize + prevsize ≤ blockRoom state.mm.allocator newsize)
    (stepped : entityStep state (.alloc entity ptr prevsize newsize) = some next) :
    next = state ∨ ∃ mm' info room,
      next = { state with
        mm := mm'
        allocations := state.allocations ++ [⟨entity, info, room, 0⟩] } ∧
      state.Alive entity ∧ 16 ≤ room ∧
      HeapKeeps state.heap ⟨mm'.mem, mm'.allocator, state.live ++ [(info, room)]⟩
        (fun p => p = info ∨ state.mm.components entity = some p) ∧
      mm'.allocator = state.mm.allocator ∧ mm'.freeListNext = state.mm.freeListNext ∧
      (state.mm.components entity ≠ none ∧ mm'.components = state.mm.components ∨
        state.mm.components entity = none ∧
          mm'.components = Function.update state.mm.components entity (some info)) := by
  obtain ⟨⟨living, enough⟩, made⟩ := Option.ite_none_right_eq_some.mp stepped
  obtain ⟨⟨mm', result⟩, ran, rfl⟩ := Option.map_eq_some_iff.mp made
  by_cases zero : newsize = 0
  · rw [entityAlloc, if_pos zero] at ran
    cases ran
    exact Or.inl rfl
  · obtain ⟨info, rfl, space, keeps, rest⟩ :=
      entityAlloc_keeps sound zero (enough.trans small) roots copies ran
    refine Or.inr ⟨mm', info, _, ?_, living, space, keeps, rest⟩
    have nonnull : info + entityAllocationInfoSize ≠ 0 := Nat.succ_ne_zero _
    show EntityRun.mk mm' (if info + entityAllocationInfoSize = 0 then _ else _) _ _ = _
    rw [if_neg nonnull]
    dsimp only
    rw [Nat.add_sub_cancel]

/-- **An allocation** keeps the run tended. -/
theorem alloc_tended (tended : state.Tended) {entity ptr prevsize newsize : Nat}
    (reclaimable : Reclaimable state (.alloc entity ptr prevsize newsize))
    (stepped : entityStep state (.alloc entity ptr prevsize newsize) = some next) :
    next.Tended := by
  obtain ⟨blocks, sound⟩ := tended.heap
  have roots : ∀ root, state.mm.components entity = some root →
      ∃ rootRoom, (root, rootRoom) ∈ state.live ∧ 16 ≤ rootRoom := by
    intro root here
    obtain ⟨-, a, member, -, rfl, live⟩ := tended.component entity root here
    exact ⟨a.room, mem_live member live, tended.room a member⟩
  rcases alloc_cases sound tended.small roots reclaimable stepped with
    rfl | ⟨mm', info, room, rfl, living, space, keeps, allocator, freeListNext, components⟩
  · exact tended
  · obtain ⟨blocks', sound'⟩ := keeps.sound
    refine ⟨⟨blocks', ?_⟩, ?_, fun a member => ?_, fun e p here => ?_, fun a member alive => ?_,
      fun a member gone => ?_, tended.once, ?_⟩
    · show BuddyHeap.Sound ⟨mm'.mem, mm'.allocator, EntityRun.live _⟩ blocks'
      rw [live_append]
      exact sound'
    · show mm'.allocator.tail - mm'.allocator.head ≤ 2 ^ 62
      rw [allocator]
      exact tended.small
    · rcases List.mem_append.mp member with older | newest
      · exact tended.room a older
      · rw [List.mem_singleton.mp newest]
        exact space
    · rcases component_attached components here with before | ⟨rfl, rfl⟩
      · obtain ⟨alive, a, member, rest⟩ := tended.component e p before
        exact ⟨alive, a, List.mem_append_left _ member, rest⟩
      · exact ⟨living, _, List.mem_append_right _ (List.mem_singleton_self _), rfl, rfl, rfl⟩
    · rcases List.mem_append.mp member with older | newest
      · obtain ⟨live, present⟩ := tended.alive a older alive
        exact ⟨live, component_stays components (Or.inl present)⟩
      · rw [List.mem_singleton.mp newest]
        exact ⟨rfl, component_stays components (Or.inr rfl)⟩
    · rcases List.mem_append.mp member with older | newest
      · exact tended.swept a older gone
      · rw [List.mem_singleton.mp newest] at gone
        exact absurd gone living.2
    · cases tended.freeList with
      | empty next nothing =>
        refine .empty (freeListNext.trans next) fun a member waits => ?_
        rcases List.mem_append.mp member with older | newest
        · exact nothing a older waits
        · rw [List.mem_singleton.mp newest] at waits
          exact living.1 waits
      | one a member next live waits last only =>
        have untouched : ¬ (a.info = info ∨ state.mm.components entity = some a.info) := by
          rintro (same | first)
          · exact live_fresh sound' member live same
          · obtain ⟨-, b, memberB, owner, same, liveB⟩ := tended.component entity _ first
            rw [tended.unique memberB member liveB live same] at owner
            exact living.1 (owner ▸ waits)
        have link := infoNext_congr (keeps.same _ _ (mem_live member live) untouched)
          (tended.low member live) (tended.room a member)
        refine .one a (List.mem_append_left _ member) (freeListNext.trans next) live waits
          (link.trans last) fun b memberB waitsB => ?_
        rcases List.mem_append.mp memberB with older | newest
        · exact only b older waitsB
        · rw [List.mem_singleton.mp newest] at waitsB
          exact absurd waitsB living.1

end Allocating

/-! ### Runs -/

section Runs

/-- **A step that loses no allocation** keeps the run tended. -/
theorem entityStep_tended (state : EntityRun) (op : EntityOp) (next : EntityRun)
    (tended : state.Tended) (reclaimable : Reclaimable state op)
    (stepped : entityStep state op = some next) : next.Tended := by
  cases op with
  | alloc entity ptr prevsize newsize => exact alloc_tended tended reclaimable stepped
  | destroy entities => exact destroy_tended tended reclaimable stepped
  | collect =>
    obtain ⟨next', stepped', tended'⟩ := collect_tended tended
    cases stepped.symm.trans stepped'
    exact tended'

/-- The start is tended. -/
theorem entityStart_tended {palloc : BuddyAllocationProc} {mem : Mem} {mm : EntityMemory}
    (init : entityMemoryInit palloc mem = some mm) : (entityStart mm).Tended := by
  obtain ⟨⟨mem', alloc⟩, made, rfl⟩ := Option.map_eq_some_iff.mp init
  obtain ⟨order, size, headPos, bounded, tiles⟩ :=
    buddyAllocInit_spec (by norm_num) (by norm_num) made
  have aligned : alloc.alignment = 16 := by
    obtain ⟨block, -, same⟩ := Option.map_eq_some_iff.mp made
    rw [← (Prod.mk.inj same).2]
    show (if roundUpToNextPowerOf2 8 < buddyBlockSize then buddyBlockSize
      else roundUpToNextPowerOf2 8) = 16
    decide
  have total : (Block.mk order true).size = 2 ^ 22 := by
    rw [size]
    decide
  refine ⟨⟨[⟨order, true⟩], ⟨aligned, headPos, bounded, tiles, List.cons_ne_nil _ _,
    fun p n member => absurd member List.not_mem_nil, fun a b member used => ?_, List.nodup_nil⟩⟩,
    ?_, fun a member => absurd member List.not_mem_nil, fun entity info here => ?_,
    fun a member => absurd member List.not_mem_nil, fun a member => absurd member List.not_mem_nil,
    fun entity waits => absurd waits List.not_mem_nil,
    .empty rfl fun a member => absurd member List.not_mem_nil⟩
  · obtain ⟨-, rfl⟩ := Prod.mk.inj (List.mem_singleton.mp member)
    cases used
  · have ends := tiles.ends
    rw [total_cons, total_nil, total] at ends
    show alloc.tail - alloc.head ≤ 2 ^ 62
    omega
  · cases here

/-- **Reclaimed exactly once and never early**, along every run whose steps lose no allocation; and
there the collector ends. -/
theorem entityRun_reclaimed (palloc : BuddyAllocationProc) (mem : Mem) (mm : EntityMemory)
    (init : entityMemoryInit palloc mem = some mm) (ops : List EntityOp)
    (reclaimable : Along entityStep Reclaimable (entityStart mm) ops) (state : EntityRun)
    (ran : run entityStep (entityStart mm) ops = some state) :
    state.Reclaimed ∧ ∃ next, entityStep state .collect = some next ∧ next.Reclaimed := by
  have tended := run_invariant_along entityStep_tended ran reclaimable (entityStart_tended init)
  obtain ⟨next, stepped, tended'⟩ := collect_tended tended
  exact ⟨tended.reclaimed, next, stepped, tended'.reclaimed⟩

/-- Two entities with one allocation each; one is destroyed before a pass, the other after it. -/
def oneEach : List EntityOp :=
  [.alloc 1 0 0 10, .alloc 2 0 0 40, .destroy [1, 3], .collect, .destroy [2]]

/-- The run of two entities with one allocation each. -/
theorem entityRun_reclaimed_oneEach :
    ∃ mm, entityMemoryInit pagePalloc (fun _ => 0) = some mm ∧
      Along entityStep Reclaimable (entityStart mm) oneEach ∧
      ∃ state, run entityStep (entityStart mm) oneEach = some state ∧ state.Reclaimed ∧
        ∃ next, entityStep state .collect = some next ∧ next.Reclaimed := by
  have reaches : ((entityMemoryInit pagePalloc fun _ => 0).any fun mm =>
      decide (Along entityStep Reclaimable (entityStart mm) oneEach) &&
        (run entityStep (entityStart mm) oneEach).isSome) = true := by
    decide +kernel
  obtain ⟨mm, init, facts⟩ := (Option.any_eq_true _ _).mp reaches
  obtain ⟨along, ends⟩ := Bool.and_eq_true_iff.mp facts
  obtain ⟨state, ran⟩ := Option.isSome_iff_exists.mp ends
  exact ⟨mm, init, of_decide_eq_true along, state, ran,
    entityRun_reclaimed pagePalloc (fun _ => 0) mm init oneEach (of_decide_eq_true along) state ran⟩

/-- **The second allocation is lost**: an entity has two allocations and is destroyed, and the pass that
follows gives back the first one only. -/
theorem second_allocation_lost :
    ¬ ∀ (palloc : BuddyAllocationProc) (mem : Mem) (mm : EntityMemory),
      entityMemoryInit palloc mem = some mm → ∀ (ops : List EntityOp) (state : EntityRun),
        run entityStep (entityStart mm) ops = some state → state.Reclaimed := by
  have reaches : ((entityMemoryInit pagePalloc fun _ => 0).any fun mm =>
      (run entityStep (entityStart mm)
        [.alloc 1 0 0 10, .alloc 1 0 0 10, .destroy [1], .collect]).any fun state =>
          decide ¬ state.Reclaimed) = true := by
    decide +kernel
  intro claimed
  obtain ⟨mm, init, rest⟩ := (Option.any_eq_true _ _).mp reaches
  obtain ⟨state, ran, lost⟩ := (Option.any_eq_true _ _).mp rest
  exact of_decide_eq_true lost (claimed pagePalloc _ mm init _ state ran)

end Runs

end Vaudou
