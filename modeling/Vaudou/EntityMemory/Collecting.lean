/-
**Whether the collector of the entity memory ends.**

A push onto a free list that is not empty links the allocation to itself, and so does the second round of a
destructor call on several components, which pushes the first one again. `GarbageCollectTask` does not come
back from such a list.

* `EntityRun.Orderly.collectorEnds_iff` — in a state that is in order, the collector ends exactly if the
  free list is empty or its one member ends it.
* `collector_ends_iff` — it ends throughout the runs in which each destructor call that has a component
  has one only, and finds the free list empty.
-/

import Vaudou.EntityMemory.Pushes
import Vaudou.EntityMemory.Resizing

namespace Vaudou

open Vaudou.Memory Vaudou.Run

/-- **The collector ends**: the free list is acyclic, and `GarbageCollectTask` returns. -/
def EntityRun.CollectorEnds (state : EntityRun) : Prop :=
  (∃ members, InfoList state.mm.mem state.mm.freeListNext members) ∧ garbageCollectTask state.mm ≠ none

/-- What an allocation copies fits into its new block. -/
def CopyFits (state : EntityRun) : EntityOp → Prop
  | .alloc _ _ prevsize newsize => prevsize ≠ 0 →
    entityAllocationInfoSize + prevsize ≤ blockRoom state.mm.allocator newsize
  | .destroy _ | .collect => True

/-- A destructor call is on no component, or on one while the free list is empty. -/
def PushesOnce (state : EntityRun) : EntityOp → Prop
  | .destroy entities => entities.filterMap state.mm.components = [] ∨
    (entities.filterMap state.mm.components).length = 1 ∧ state.mm.freeListNext = 0
  | .alloc _ _ _ _ | .collect => True

instance (state : EntityRun) : ∀ op, Decidable (CopyFits state op)
  | .alloc .. => inferInstanceAs (Decidable (_ → _))
  | .destroy _ | .collect => inferInstanceAs (Decidable True)

instance (state : EntityRun) : ∀ op, Decidable (PushesOnce state op)
  | .destroy _ => inferInstanceAs (Decidable (_ ∨ _))
  | .alloc .. | .collect => inferInstanceAs (Decidable True)

section Steps

variable {state next : EntityRun}

/-- **The collector ends** exactly if the free list is empty or its one member ends it. -/
theorem EntityRun.Orderly.collectorEnds_iff (orderly : state.Orderly) :
    state.CollectorEnds ↔
      state.mm.freeListNext = 0 ∨ infoNext state.mm.mem state.mm.freeListNext = 0 := by
  cases orderly.freeList with
  | empty none =>
    refine iff_of_true ⟨⟨[], none⟩, ?_⟩ (Or.inl none)
    rw [garbageCollectTask, collectLoop, if_pos none]
    exact Option.some_ne_none _
  | one a member first live gone last =>
    obtain ⟨blocks, sound⟩ := orderly.heap
    have low := live_low sound member live
    rcases last with last | self
    · obtain ⟨mem', blocks', stepped, -⟩ :=
        collect_one sound member first live (orderly.room a member) last
      refine iff_of_true ⟨⟨[a.info], first, by omega, last⟩, fun stuck => ?_⟩ (Or.inr (first ▸ last))
      rw [entityStep, stuck] at stepped
      cases stepped
    · rw [first]
      refine iff_of_false ?_ (by omega)
      rintro ⟨⟨members, list⟩, -⟩
      rw [first] at list
      exact not_infoList_of_self self (by omega) members list

/-- **An allocation** leaves the free list as it is. -/
theorem alloc_collectorEnds (orderly : state.Orderly) {entity ptr prevsize newsize : Nat}
    (copies : CopyFits state (.alloc entity ptr prevsize newsize))
    (stepped : entityStep state (.alloc entity ptr prevsize newsize) = some next)
    (ends : state.CollectorEnds) : next.CollectorEnds := by
  have orderly' := alloc_orderly orderly copies stepped
  obtain ⟨blocks, sound⟩ := orderly.heap
  rw [orderly.collectorEnds_iff] at ends
  rw [orderly'.collectorEnds_iff]
  rcases alloc_cases sound orderly.small (orderly.roots entity) copies stepped with
    rfl | ⟨mm', info, room, rfl, living, -, keeps, -, freeListNext, -⟩
  · exact ends
  · show mm'.freeListNext = 0 ∨ infoNext mm'.mem mm'.freeListNext = 0
    rw [freeListNext]
    cases orderly.freeList with
    | empty none => exact Or.inl none
    | one a member first live gone last =>
      rw [first] at ends ⊢
      rw [orderly.untouched living member live gone keeps]
      exact ends

/-- **A destructor call** keeps the free list acyclic exactly if it pushes once at most, and onto an empty
list. -/
theorem destroy_collectorEnds (orderly : state.Orderly) {entities : List Nat}
    (stepped : entityStep state (.destroy entities) = some next) (ends : state.CollectorEnds) :
    next.CollectorEnds ↔ PushesOnce state (.destroy entities) := by
  have orderly' := destroy_orderly orderly stepped
  have unfolded : PushesOnce state (.destroy entities) ↔ entities.filterMap state.mm.components = [] ∨
      (entities.filterMap state.mm.components).length = 1 ∧ state.mm.freeListNext = 0 := Iff.rfl
  rw [orderly'.collectorEnds_iff, unfolded]
  cases pushes : entities.filterMap state.mm.components with
  | nil =>
    obtain ⟨-, destroyed⟩ := Option.ite_none_right_eq_some.mp stepped
    rw [pushes] at destroyed
    cases destroyed
    exact iff_of_true (orderly.collectorEnds_iff.mp ends) (Or.inl rfl)
  | cons info rest =>
    obtain ⟨mm', a, member, rfl, rfl, live, -, -, first, -, -, last⟩ :=
      destroy_cases orderly stepped pushes
    obtain ⟨blocks, sound⟩ := orderly.heap
    have low := live_low sound member live
    have nonzero : a.info ≠ 0 := by omega
    show mm'.freeListNext = 0 ∨ infoNext mm'.mem mm'.freeListNext = 0 ↔ _
    rw [first, last]
    by_cases once : state.mm.freeListNext = 0 ∧ rest.length = 0
    · rw [if_pos once]
      exact iff_of_true (Or.inr rfl) (Or.inr ⟨by simp [once.2], once.1⟩)
    · rw [if_neg once]
      simp only [nonzero, or_self, reduceCtorEq, false_or, false_iff]
      rintro ⟨single, empty⟩
      exact once ⟨empty, by simpa using single⟩

/-- **One step**, of those whose copies fit. -/
theorem entityStep_collectorEnds (state : EntityRun) (op : EntityOp) (next : EntityRun)
    (orderly : state.Orderly) (ends : state.CollectorEnds) (copies : CopyFits state op)
    (stepped : entityStep state op = some next) :
    next.Orderly ∧ (next.CollectorEnds ↔ PushesOnce state op) := by
  cases op with
  | alloc entity ptr prevsize newsize =>
    exact ⟨alloc_orderly orderly copies stepped,
      iff_of_true (alloc_collectorEnds orderly copies stepped ends) trivial⟩
  | destroy entities =>
    exact ⟨destroy_orderly orderly stepped, destroy_collectorEnds orderly stepped ends⟩
  | collect =>
    have orderly' := collect_orderly orderly stepped
    refine ⟨orderly', iff_of_true (orderly'.collectorEnds_iff.mpr (Or.inl ?_)) trivial⟩
    obtain ⟨result, collected, rfl⟩ := Option.map_eq_some_iff.mp stepped
    obtain ⟨_, -, rfl⟩ := Option.map_eq_some_iff.mp collected
    rfl

end Steps

/-! ### Runs -/

section Runs

/-- **The collector ends** in every state of a run on a new entity memory whose copies fit, if and only
if every destructor call of the run that has a component has one only, and finds the free list empty. -/
theorem collector_ends_iff (palloc : BuddyAllocationProc) (mem : Mem) (mm : EntityMemory)
    (init : entityMemoryInit palloc mem = some mm) (ops : List EntityOp) (state : EntityRun)
    (ran : run entityStep (entityStart mm) ops = some state)
    (copies : Along entityStep CopyFits (entityStart mm) ops) :
    Throughout entityStep EntityRun.CollectorEnds (entityStart mm) ops ↔
      Along entityStep PushesOnce (entityStart mm) ops := by
  have orderly := entityStart_orderly init
  refine throughout_iff_along_of_run entityStep_collectorEnds ran copies orderly
    (orderly.collectorEnds_iff.mpr (Or.inl ?_))
  obtain ⟨_, -, rfl⟩ := Option.map_eq_some_iff.mp init
  rfl

/-- Entities with several allocations, destroyed one at a time with a pass after each. -/
def sweptEach : List EntityOp :=
  [.alloc 1 0 0 10, .alloc 2 0 0 40, .alloc 1 0 0 10, .destroy [1, 3], .collect, .destroy [2]]

/-- The collector ends throughout the run. -/
theorem collector_ends_iff_sweptEach : ∃ mm, entityMemoryInit pagePalloc (fun _ => 0) = some mm ∧
    ∃ state, run entityStep (entityStart mm) sweptEach = some state ∧
      Throughout entityStep EntityRun.CollectorEnds (entityStart mm) sweptEach := by
  have reaches : ((entityMemoryInit pagePalloc fun _ => 0).any fun mm =>
      decide (Along entityStep CopyFits (entityStart mm) sweptEach) &&
        (decide (Along entityStep PushesOnce (entityStart mm) sweptEach) &&
          (run entityStep (entityStart mm) sweptEach).isSome)) = true := by
    decide +kernel
  obtain ⟨mm, init, facts⟩ := (Option.any_eq_true _ _).mp reaches
  obtain ⟨copies, facts⟩ := Bool.and_eq_true_iff.mp facts
  obtain ⟨once, ends⟩ := Bool.and_eq_true_iff.mp facts
  obtain ⟨state, ran⟩ := Option.isSome_iff_exists.mp ends
  exact ⟨mm, init, state, ran, (collector_ends_iff pagePalloc (fun _ => 0) mm init sweptEach state ran
    (of_decide_eq_true copies)).mpr (of_decide_eq_true once)⟩

/-- **Two entities are destroyed** between two passes, and the free list is a circle of one. -/
theorem two_destroyed_circle :
    ¬ ∀ (palloc : BuddyAllocationProc) (mem : Mem) (mm : EntityMemory),
      entityMemoryInit palloc mem = some mm → ∀ (ops : List EntityOp) (state : EntityRun),
        run entityStep (entityStart mm) ops = some state → state.CollectorEnds := by
  have reaches : ((entityMemoryInit pagePalloc fun _ => 0).any fun mm =>
      (run entityStep (entityStart mm)
        [.alloc 1 0 0 10, .alloc 2 0 0 10, .destroy [1], .destroy [2]]).any fun state =>
          decide (state.mm.freeListNext ≠ 0 ∧
            infoNext state.mm.mem state.mm.freeListNext = state.mm.freeListNext)) = true := by
    decide +kernel
  intro claimed
  obtain ⟨mm, init, rest⟩ := (Option.any_eq_true _ _).mp reaches
  obtain ⟨state, ran, facts⟩ := (Option.any_eq_true _ _).mp rest
  obtain ⟨nonzero, self⟩ := of_decide_eq_true facts
  obtain ⟨⟨members, list⟩, -⟩ := claimed pagePalloc _ mm init _ state ran
  exact not_infoList_of_self self nonzero members list

end Runs

end Vaudou
