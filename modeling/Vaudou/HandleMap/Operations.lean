/-
**What one call of the handle map does, in terms of slot records.**

Each operation touches the record of at most one slot (`TouchesOnly`). `handlemapRegister_spec`,
`handlemapCopy_spec` and `handleDrop_spec` say which record it leaves there; the `_defined` lemmas say
when the call has defined behaviour. None of them assumes anything about the handle that is used.
-/

import Vaudou.HandleMap.Layout

namespace Vaudou

open Vaudou.Memory

variable {E : HandleMapEnv} {map after : HandleMap} {handle handle' : Handle} {slot : Nat}

/-- The map keeps its invariant, its header and the records of all slots but one. -/
structure TouchesOnly (E : HandleMapEnv) (map after : HandleMap) (slot : Nat) : Prop where
  wf : after.WellFormed E
  self : after.self = map.self
  arr : after.arr = map.arr
  arrLen : after.arrLen = map.arrLen
  idmap : after.idmap = map.idmap
  others : ∀ j, j ≠ slot → slotState E after j = slotState E map j

theorem TouchesOnly.refl (wf : map.WellFormed E) (slot : Nat) : TouchesOnly E map map slot :=
  ⟨wf, rfl, rfl, rfl, rfl, fun _ _ => rfl⟩

theorem TouchesOnly.trans {last : HandleMap} (first : TouchesOnly E map after slot)
    (second : TouchesOnly E after last slot) : TouchesOnly E map last slot where
  wf := second.wf
  self := second.self.trans first.self
  arr := second.arr.trans first.arr
  arrLen := second.arrLen.trans first.arrLen
  idmap := second.idmap.trans first.idmap
  others j other := (second.others j other).trans (first.others j other)

section Writes

theorem setSlotRefcount_touches (slot : Nat) (wf : map.WellFormed E) {count : Int}
    (low : -2 ^ 31 ≤ count) (high : count < 2 ^ 31) : TouchesOnly E map
      (setSlotRefcount E map slot count) slot := by
  refine ⟨wf.of_mem fun _ => ?_, rfl, rfl, rfl, rfl,
    fun j other => slotState_congr (slotBytes_setSlotRefcount other)⟩
  by_cases same : 0 = slot
  · subst same
    exact congrArg SlotState.refmode (slotState_setSlotRefcount E map 0 low high)
  · exact congrArg SlotState.refmode (slotState_congr (slotBytes_setSlotRefcount same))

theorem slotRefcount_setSlotRefcount (E : HandleMapEnv) (map : HandleMap) (slot : Nat)
    {count : Int} (low : -2 ^ 31 ≤ count)
    (high : count < 2 ^ 31) : slotRefcount E (setSlotRefcount E map slot count) slot = count := by
  rw [← slotState_refcount, slotState_setSlotRefcount E map slot low high]

theorem setSlotId_touches (wf : map.WellFormed E) {id : Nat} (fits : id < 2 ^ 64) :
    TouchesOnly E map (setSlotId E map slot id) slot := by
  refine ⟨wf.of_mem fun _ => ?_, rfl, rfl, rfl, rfl,
    fun j other => slotState_congr (slotBytes_setSlotId other)⟩
  by_cases same : 0 = slot
  · subst same
    exact congrArg SlotState.refmode (slotState_setSlotId E map 0 fits)
  · exact congrArg SlotState.refmode (slotState_congr (slotBytes_setSlotId same))

theorem callOnFreeObject_touches (slot : Nat) (wf : map.WellFormed E) :
    TouchesOnly E map (callOnFreeObject E map slot) slot := by
  refine ⟨wf.of_mem fun _ => ?_, rfl, rfl, rfl, rfl,
    fun j other => slotState_congr (slotBytes_callOnFreeObject other)⟩
  by_cases same : 0 = slot
  · subst same
    exact congrArg SlotState.refmode (slotState_callOnFreeObject E map 0)
  · exact congrArg SlotState.refmode (slotState_congr (slotBytes_callOnFreeObject same))

end Writes

theorem slotRefcount_range (E : HandleMapEnv) (map : HandleMap) (slot : Nat) :
    -2 ^ 31 ≤ slotRefcount E map slot ∧ slotRefcount E map slot < 2 ^ 31 := by
  have range := readInt_range map.mem (slotMetadataPtr E map slot) 4
  unfold slotRefcount
  norm_num at range ⊢
  omega

/-! ### Registering -/

/-- The next id is new to the id map. -/
theorem HandleMap.WellFormed.nextId_absent (wf : map.WellFormed E) (w : Nat) :
    ¬ map.idmap.Holds map.nextId w := by
  intro held
  have := (wf.ids _ _).mp held
  have := wf.nextId
  omega

/-- **`vd_handlemap__register`.** The next id and the next slot, the record filled in, every other
record kept. -/
theorem handlemapRegister_spec (wf : map.WellFormed E) {value : List UInt8} {mode : RefMode}
    (length : value.length = E.elsize)
    (registered : handlemapRegister E map value mode = some (handle, after)) :
    handle = ⟨map.arrLen + 1, map.self⟩ ∧ after.WellFormed E ∧ after.self = map.self ∧
      after.arrLen = map.arrLen + 1 ∧ after.freed = map.freed ∧
      slotState E after map.arrLen = ⟨1, mode.toNat, map.arrLen + 1, value⟩ ∧
      ∀ j < map.arrLen, slotState E after j = slotState E map j := by
  obtain ⟨⟨slot, grown⟩, allocated, rest⟩ := Option.bind_eq_some_iff.mp registered
  obtain ⟨⟨stored, ids⟩, set, same⟩ := Option.map_eq_some_iff.mp rest
  obtain ⟨rfl, inside, idmap, nextId, self, freed, arrLen, arrPos, bounded, bytes⟩ :=
    allocateSlot_spec wf allocated
  obtain ⟨ids', set', idsSound, idsGrow, holds⟩ :=
    intmapSet_absent wf.sound wf.autogrow (v := map.arrLen) wf.nextId_absent
  simp only [idmap] at set
  rw [set'] at set
  cases set
  rw [Prod.mk.injEq] at same
  obtain ⟨rfl, rfl⟩ := same
  have fits : map.nextId < 2 ^ 64 := by
    have := wf.arrLen_lt
    rw [wf.nextId]
    omega
  have record := slotState_fillSlot { grown with idmap := ids } map.arrLen mode fits length
  refine ⟨by rw [wf.nextId], ?_, self, arrLen, freed, by rw [record, wf.nextId], ?_⟩
  · refine ⟨idsSound, idsGrow, fun k slot => ?_, ?_, ?_, by show 0 < grown.arrCap; omega, arrPos,
      bounded, fun empty => ?_⟩
    · show ids.Holds k slot ↔ slot < grown.arrLen ∧ k = slot + 1
      rw [holds, wf.ids, wf.nextId, arrLen]
      omega
    · show grown.nextId = grown.arrLen + 1
      rw [nextId, arrLen, wf.nextId]
    · show grown.arrLen ≤ grown.arrCap
      omega
    · change grown.arrLen = 0 at empty
      omega
  · intro j below
    refine slotState_congr ?_
    rw [slotBytes_fillSlot length (Nat.ne_of_lt below)]
    exact bytes j below

/-- A registration is defined when its slot can be allocated. -/
theorem handlemapRegister_defined (wf : map.WellFormed E) (value : List UInt8) (mode : RefMode)
    (room : allocateSlot E { map with nextId := map.nextId + 1 } ≠ none) :
    ∃ result, handlemapRegister E map value mode = some result := by
  obtain ⟨⟨slot, grown⟩, allocated⟩ := Option.ne_none_iff_exists'.mp room
  obtain ⟨rfl, -, idmap, -⟩ := allocateSlot_spec wf allocated
  obtain ⟨ids, set, -⟩ := intmapSet_absent wf.sound wf.autogrow (v := map.arrLen) wf.nextId_absent
  refine ⟨(⟨map.nextId, map.self⟩, fillSlot E { grown with idmap := ids } map.arrLen map.nextId mode
    value), ?_⟩
  rw [handlemapRegister, allocated, Option.bind_some, idmap, set]
  rfl

/-! ### Copying -/

/-- **`vd_handlemap_copy` on an id that is found.** -/
theorem handlemapCopy_spec (wf : map.WellFormed E)
    (found : intmapTryget E.intmap map.idmap handle.id = some (some slot))
    (copied : handlemapCopy E map handle = some (handle', after)) :
    handle' = handle ∧ TouchesOnly E map after slot ∧ after.freed = map.freed ∧
      slotState E after slot =
        if slotRefmode E map slot = RefMode.count.toNat then
          { slotState E map slot with refcount := slotRefcount E map slot + 1 }
        else slotState E map slot := by
  simp only [handlemapCopy, found, Option.bind_some] at copied
  split at copied
  · rename_i counted
    split at copied
    · cases copied
    · rename_i room
      cases copied
      have range := slotRefcount_range E map slot
      have low : -2 ^ 31 ≤ slotRefcount E map slot + 1 := by omega
      have high : slotRefcount E map slot + 1 < 2 ^ 31 := by omega
      rw [if_pos counted]
      exact ⟨rfl, setSlotRefcount_touches slot wf low high, rfl,
        slotState_setSlotRefcount E map slot low high⟩
  · rename_i uncounted
    cases copied
    rw [if_neg uncounted]
    exact ⟨rfl, TouchesOnly.refl wf slot, rfl, rfl⟩

/-- A copy is defined unless the count is at its maximum. -/
theorem handlemapCopy_defined (handle : Handle)
    (found : intmapTryget E.intmap map.idmap handle.id = some (some slot))
    (room : slotRefmode E map slot = RefMode.count.toNat → slotRefcount E map slot < 2 ^ 31 - 1) :
    ∃ result, handlemapCopy E map handle = some result := by
  simp only [handlemapCopy, found, Option.bind_some]
  split
  · rename_i counted
    rw [if_neg (ne_of_lt (room counted))]
    exact ⟨_, rfl⟩
  · exact ⟨_, rfl⟩

/-! ### Dropping -/

/-- The three ways a drop of a found id can end. -/
inductive DropOutcome (E : HandleMapEnv) (map after : HandleMap) (slot : Nat) : Prop
  | uncounted (mode : slotRefmode E map slot ≠ RefMode.count.toNat) (same : after = map)
  | more (mode : slotRefmode E map slot = RefMode.count.toNat) (count : 1 < slotRefcount E map slot)
      (freed : after.freed = map.freed)
      (record : slotState E after slot =
        { slotState E map slot with refcount := slotRefcount E map slot - 1 })
  | last (mode : slotRefmode E map slot = RefMode.count.toNat) (count : slotRefcount E map slot = 1)
      (freed : after.freed = map.freed ++ [slot])
      (record : slotState E after slot =
        ⟨0, RefMode.count.toNat, 0, E.onFreeObject (slotValue E map slot)⟩)

/-- **`vd_handle_drop` on an id that is found.** -/
theorem handleDrop_spec (wf : map.WellFormed E)
    (found : intmapTryget E.intmap map.idmap handle.id = some (some slot))
    (dropped : handleDrop E map handle = some (handle', after)) :
    handle' = { handle with id := 0 } ∧ TouchesOnly E map after slot ∧
      DropOutcome E map after slot := by
  simp only [handleDrop, found, Option.bind_some] at dropped
  split at dropped
  · rename_i counted
    split at dropped
    · cases dropped
    · rename_i room
      obtain ⟨result, outcome, same⟩ := Option.map_eq_some_iff.mp dropped
      cases same
      have range := slotRefcount_range E map slot
      have low : -2 ^ 31 ≤ slotRefcount E map slot - 1 := by omega
      have high : slotRefcount E map slot - 1 < 2 ^ 31 := by omega
      have record := slotState_setSlotRefcount E map slot low high
      have touched := setSlotRefcount_touches slot wf low high
      have count := slotRefcount_setSlotRefcount E map slot low high
      unfold dropCounted at outcome
      rw [count] at outcome
      split at outcome
      · cases outcome
      · rename_i nonneg
        split at outcome
        · rename_i zero
          cases outcome
          have called := callOnFreeObject_touches slot touched.wf
          have value : slotValue E (setSlotRefcount E map slot (slotRefcount E map slot - 1)) slot =
              slotValue E map slot := congrArg SlotState.value record
          refine ⟨rfl, (touched.trans called).trans (setSlotId_touches called.wf (by norm_num)),
            .last counted (by omega) rfl ?_⟩
          rw [slotState_setSlotId _ _ _ (by norm_num), slotState_callOnFreeObject, record, value, zero]
          show SlotState.mk 0 (slotRefmode E map slot) 0 _ = _
          rw [counted]
        · rename_i more
          cases outcome
          exact ⟨rfl, touched, .more counted (by omega) rfl record⟩
  · rename_i uncounted
    cases dropped
    exact ⟨rfl, TouchesOnly.refl wf slot, .uncounted uncounted rfl⟩

/-- A drop is defined unless it takes a count below zero. -/
theorem handleDrop_defined (handle : Handle)
    (found : intmapTryget E.intmap map.idmap handle.id = some (some slot))
    (held : slotRefmode E map slot = RefMode.count.toNat → 0 < slotRefcount E map slot) :
    ∃ result, handleDrop E map handle = some result := by
  simp only [handleDrop, found, Option.bind_some]
  split
  · rename_i counted
    have positive := held counted
    have range := slotRefcount_range E map slot
    have low : -2 ^ 31 ≤ slotRefcount E map slot - 1 := by omega
    have high : slotRefcount E map slot - 1 < 2 ^ 31 := by omega
    have count := slotRefcount_setSlotRefcount E map slot low high
    rw [if_neg (by omega), dropCounted, count, if_neg (by omega)]
    split
    · exact ⟨_, rfl⟩
    · exact ⟨_, rfl⟩
  · exact ⟨_, rfl⟩

end Vaudou
