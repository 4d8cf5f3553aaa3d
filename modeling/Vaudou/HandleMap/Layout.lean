/-
**The slot array as a sequence of records.**

`slotState E map slot` is what the bytes of a slot say: the three metadata fields and the object.
The writes of the source are field updates of the record of their own slot (`slotState_setSlot…`)
and leave the bytes of every other slot alone (`slotBytes_setSlot…`); growing the array moves the
bytes and keeps all of them (`allocateSlot_spec`).

`HandleMap.WellFormed` is the invariant of the map itself, whatever handles are used on it: the
integer map takes exactly the ids `1 … arr_len` to the slots `0 … arr_len - 1`, in order. Object `n`
(counting from 0 in order of registration) has id `n + 1` and lives in slot `n` for good.
-/

import Vaudou.HandleMap.Slots

namespace Vaudou

open Vaudou.Memory

variable {E : HandleMapEnv} {map : HandleMap}

/-! ### Reading a slot -/

/-- What the bytes of a slot say. -/
structure SlotState where
  refcount : Int
  refmode : Nat
  id : Nat
  value : List UInt8

/-- The record in a slot. -/
def slotState (E : HandleMapEnv) (map : HandleMap) (slot : Nat) : SlotState :=
  ⟨slotRefcount E map slot, slotRefmode E map slot, slotId E map slot, slotValue E map slot⟩

theorem slotState_refcount (slot : Nat) :
    (slotState E map slot).refcount = slotRefcount E map slot := by
  rw [slotState]

/-- The record at an address. -/
def recordAt (elsize : Nat) (mem : Mem) (p : Nat) : SlotState :=
  ⟨mem.readInt p 4, mem.readNat (p + 4) 4, mem.readNat (p + 8) 8, mem.load (p + 16) elsize⟩

/-- All bytes of a slot. -/
def slotBytes (E : HandleMapEnv) (map : HandleMap) (slot : Nat) : List UInt8 :=
  map.mem.load (slotMetadataPtr E map slot) E.arrayElementSize

theorem slotValuePtr_eq (slot : Nat) : slotValuePtr E map slot = slotMetadataPtr E map slot + 16 :=
  rfl

/-- **The record of a slot is a function of its bytes**, wherever the array lies. -/
theorem slotState_congr {map' : HandleMap} {slot slot' : Nat}
    (same : slotBytes E map' slot' = slotBytes E map slot) :
    slotState E map' slot' = slotState E map slot := by
  have part : ∀ k w, k + w ≤ E.arrayElementSize →
      map'.mem.load (slotMetadataPtr E map' slot' + k) w =
        map.mem.load (slotMetadataPtr E map slot + k) w := by
    intro k w inside
    rw [load_part inside, load_part inside]
    exact congrArg (fun bytes => (bytes.drop k).take w) same
  have refcount := part 0 4 (by unfold HandleMapEnv.arrayElementSize entryMetadataSize; omega)
  have refmode := part 4 4 (by unfold HandleMapEnv.arrayElementSize entryMetadataSize; omega)
  have id := part 8 8 (by unfold HandleMapEnv.arrayElementSize entryMetadataSize; omega)
  have value := part 16 E.elsize (by unfold HandleMapEnv.arrayElementSize entryMetadataSize; omega)
  simp only [Nat.add_zero] at refcount
  simp only [slotState, slotRefcount, slotRefmode, slotId, slotValue, slotValuePtr_eq, Mem.readInt,
    Mem.readNat, refcount, refmode, id, value]

/-- Slots do not overlap. -/
theorem slot_apart (E : HandleMapEnv) (map : HandleMap) {i j : Nat} (different : i ≠ j) :
    slotMetadataPtr E map i + E.arrayElementSize ≤ slotMetadataPtr E map j ∨
      slotMetadataPtr E map j + E.arrayElementSize ≤ slotMetadataPtr E map i := by
  unfold slotMetadataPtr
  rcases Nat.lt_or_gt_of_ne different with less | more
  · left
    have := Nat.mul_le_mul_left E.arrayElementSize less
    rw [Nat.mul_succ] at this
    omega
  · right
    have := Nat.mul_le_mul_left E.arrayElementSize more
    rw [Nat.mul_succ] at this
    omega

/-- A write into one slot leaves the bytes of the others. -/
theorem slotBytes_of_change {mem : Mem} {slot k w j : Nat} (inside : k + w ≤ E.arrayElementSize)
    (change : ChangedWithin map.mem mem (slotMetadataPtr E map slot + k) w) (other : j ≠ slot) :
    slotBytes E { map with mem := mem } j = slotBytes E map j := by
  have whole := change.widen (a := slotMetadataPtr E map slot) (n := E.arrayElementSize)
    (by omega) (by omega)
  exact load_congr (whole.same (slot_apart E map other))

/-! ### Writing a slot -/

section Writes

variable {slot j : Nat}

theorem entryMetadataSize_le : 16 ≤ E.arrayElementSize := by
  unfold HandleMapEnv.arrayElementSize entryMetadataSize
  omega

theorem slotBytes_setSlotRefcount {count : Int} (other : j ≠ slot) :
    slotBytes E (setSlotRefcount E map slot count) j = slotBytes E map j := by
  have := entryMetadataSize_le (E := E)
  exact slotBytes_of_change (k := 0) (w := 4) (by omega) (writeInt_changedWithin _ _ _ _) other

theorem slotBytes_setSlotRefmode {mode : RefMode} (other : j ≠ slot) :
    slotBytes E (setSlotRefmode E map slot mode) j = slotBytes E map j := by
  have := entryMetadataSize_le (E := E)
  exact slotBytes_of_change (k := 4) (w := 4) (by omega) (writeNat_changedWithin _ _ _ _) other

theorem slotBytes_setSlotId {id : Nat} (other : j ≠ slot) :
    slotBytes E (setSlotId E map slot id) j = slotBytes E map j := by
  have := entryMetadataSize_le (E := E)
  exact slotBytes_of_change (k := 8) (w := 8) (by omega) (writeNat_changedWithin _ _ _ _) other

theorem slotBytes_setSlotValue {value : List UInt8} (length : value.length = E.elsize)
    (other : j ≠ slot) : slotBytes E (setSlotValue E map slot value) j = slotBytes E map j := by
  have change := store_changedWithin map.mem (slotValuePtr E map slot) value
  rw [length] at change
  refine slotBytes_of_change (k := 16) (w := E.elsize) ?_ change other
  unfold HandleMapEnv.arrayElementSize entryMetadataSize
  omega

section Records

variable {elsize p : Nat} {mem : Mem}

theorem recordAt_writeRefcount {count : Int} (low : -2 ^ 31 ≤ count) (high : count < 2 ^ 31) :
    recordAt elsize (mem.writeInt p 4 count) p = { recordAt elsize mem p with refcount := count } := by
  have change := writeInt_changedWithin mem p 4 count
  rw [recordAt, readInt_writeInt (by norm_num; omega) (by norm_num; omega),
    readNat_congr (change.same (Or.inr (by omega))),
    readNat_congr (change.same (Or.inr (by omega))), load_congr (change.same (Or.inr (by omega)))]
  rfl

theorem recordAt_writeRefmode {mode : Nat} (fits : mode < 2 ^ 32) :
    recordAt elsize (mem.writeNat (p + 4) 4 mode) p =
      { recordAt elsize mem p with refmode := mode } := by
  have change := writeNat_changedWithin mem (p + 4) 4 mode
  rw [recordAt, readInt_congr (change.same (Or.inl (by omega))), readNat_writeNat_lt (by omega),
    readNat_congr (change.same (Or.inr (by omega))), load_congr (change.same (Or.inr (by omega)))]
  simp only [recordAt]

theorem recordAt_writeId {id : Nat} (fits : id < 2 ^ 64) :
    recordAt elsize (mem.writeNat (p + 8) 8 id) p = { recordAt elsize mem p with id := id } := by
  have change := writeNat_changedWithin mem (p + 8) 8 id
  rw [recordAt, readInt_congr (change.same (Or.inl (by omega))),
    readNat_congr (change.same (Or.inl (by omega))), readNat_writeNat_lt (by omega),
    load_congr (change.same (Or.inr (by omega)))]
  simp only [recordAt]

theorem recordAt_storeValue (mem : Mem) (p : Nat) (value : List UInt8) :
    recordAt value.length (mem.store (p + 16) value) p =
      { recordAt value.length mem p with value := value } := by
  have change := store_changedWithin mem (p + 16) value
  rw [recordAt, readInt_congr (change.same (Or.inl (by omega))),
    readNat_congr (change.same (Or.inl (by omega))),
    readNat_congr (change.same (Or.inl (by omega))), load_store_same]
  simp only [recordAt]

end Records

/-- A write of the first field. -/
theorem slotState_setSlotRefcount (E : HandleMapEnv) (map : HandleMap) (slot : Nat)
    {count : Int} (low : -2 ^ 31 ≤ count) (high : count < 2 ^ 31) :
    slotState E (setSlotRefcount E map slot count) slot =
      { slotState E map slot with refcount := count } := recordAt_writeRefcount low high

/-- A write of the second field. -/
theorem slotState_setSlotRefmode (E : HandleMapEnv) (map : HandleMap) (slot : Nat)
    {mode : RefMode} :
    slotState E (setSlotRefmode E map slot mode) slot =
      { slotState E map slot with refmode := mode.toNat } :=
  recordAt_writeRefmode (by cases mode <;> norm_num [RefMode.toNat])

/-- A write of the third field. -/
theorem slotState_setSlotId (E : HandleMapEnv) (map : HandleMap) (slot : Nat)
    {id : Nat} (fits : id < 2 ^ 64) :
    slotState E (setSlotId E map slot id) slot = { slotState E map slot with id := id } :=
  recordAt_writeId fits

/-- A write of the object. -/
theorem slotState_setSlotValue {value : List UInt8} (length : value.length = E.elsize) :
    slotState E (setSlotValue E map slot value) slot =
      { slotState E map slot with value := value } := by
  have written := recordAt_storeValue map.mem (slotMetadataPtr E map slot) value
  rw [length] at written
  exact written

end Writes

/-! ### Registration writes and the free callback -/

section Composite

variable {slot j id : Nat} {mode : RefMode} {value : List UInt8}

/-- **The record a registration leaves.** -/
theorem slotState_fillSlot (map : HandleMap) (slot : Nat) (mode : RefMode) (fits : id < 2 ^ 64)
    (length : value.length = E.elsize) :
    slotState E (fillSlot E map slot id mode value) slot = ⟨1, mode.toNat, id, value⟩ := by
  rw [fillSlot, slotState_setSlotValue length, slotState_setSlotRefmode,
    slotState_setSlotRefcount _ _ _ (by norm_num) (by norm_num), slotState_setSlotId _ _ _ fits]

theorem slotBytes_fillSlot (length : value.length = E.elsize) (other : j ≠ slot) :
    slotBytes E (fillSlot E map slot id mode value) j = slotBytes E map j := by
  rw [fillSlot, slotBytes_setSlotValue length other, slotBytes_setSlotRefmode other,
    slotBytes_setSlotRefcount other, slotBytes_setSlotId other]

theorem slotValue_length : (slotValue E map slot).length = E.elsize := load_length

/-- The callback changes nothing but the object. -/
theorem slotState_callOnFreeObject (E : HandleMapEnv) (map : HandleMap) (slot : Nat) :
    slotState E (callOnFreeObject E map slot) slot =
      { slotState E map slot with value := E.onFreeObject (slotValue E map slot) } :=
  slotState_setSlotValue ((E.onFreeObject_length _).trans slotValue_length)

theorem slotBytes_callOnFreeObject (other : j ≠ slot) :
    slotBytes E (callOnFreeObject E map slot) j = slotBytes E map j :=
  slotBytes_setSlotValue ((E.onFreeObject_length _).trans slotValue_length) other

end Composite

/-! ### The invariant of the map -/

/-- **The integer map takes id `n + 1` to slot `n`, for every slot handed out, and nothing else.** -/
structure HandleMap.WellFormed (E : HandleMapEnv) (map : HandleMap) : Prop where
  sound : map.idmap.Sound E.intmap
  autogrow : map.idmap.noAutogrow = false
  ids : ∀ k slot, map.idmap.Holds k slot ↔ slot < map.arrLen ∧ k = slot + 1
  nextId : map.nextId = map.arrLen + 1
  arrLen_le : map.arrLen ≤ map.arrCap
  arrCap_pos : 0 < map.arrCap
  arr_pos : 0 < map.arr
  bounded : map.arr + E.arrayElementSize * map.arrCap ≤ 2 ^ 63
  blank : map.arrLen = 0 → slotRefmode E map 0 = 0

section Invariant

theorem HandleMap.WellFormed.arrLen_lt (wf : map.WellFormed E) : map.arrLen + 1 < 2 ^ 64 := by
  have size := entryMetadataSize_le (E := E)
  have cap : map.arrCap ≤ E.arrayElementSize * map.arrCap :=
    Nat.le_mul_of_pos_left _ (by omega)
  have := wf.bounded
  have := wf.arrLen_le
  omega

/-- The id of a registered object is found, in its slot. -/
theorem HandleMap.WellFormed.tryget (wf : map.WellFormed E) {slot : Nat}
    (inside : slot < map.arrLen) :
    intmapTryget E.intmap map.idmap (slot + 1) = some (some slot) :=
  intmapTryget_holds wf.sound ((wf.ids _ _).mpr ⟨inside, rfl⟩)

/-- A lookup of any id returns nothing, or a slot handed out, or slot 0 of an empty map. -/
theorem HandleMap.WellFormed.tryget_cases (wf : map.WellFormed E) (id : Nat) :
    intmapTryget E.intmap map.idmap id = some none ∨
      ∃ slot, intmapTryget E.intmap map.idmap id = some (some slot) ∧
        (slot < map.arrLen ∨ (slot = 0 ∧ map.arrLen = 0)) := by
  rcases intmapTryget_cases wf.sound id with missed | ⟨slot, found, zero | held⟩
  · exact Or.inl missed
  · refine Or.inr ⟨slot, found, ?_⟩
    omega
  · exact Or.inr ⟨slot, found, Or.inl ((wf.ids _ _).mp held).1⟩

/-- A map that differs in memory only, away from the reference mode of slot 0, is well formed. -/
theorem HandleMap.WellFormed.of_mem (wf : map.WellFormed E) {mem : Mem} {freed : List Nat}
    (blank : map.arrLen = 0 → slotRefmode E { map with mem := mem } 0 = slotRefmode E map 0) :
    HandleMap.WellFormed E { map with mem := mem, freed := freed } where
  sound := wf.sound
  autogrow := wf.autogrow
  ids := wf.ids
  nextId := wf.nextId
  arrLen_le := wf.arrLen_le
  arrCap_pos := wf.arrCap_pos
  arr_pos := wf.arr_pos
  bounded := wf.bounded
  blank empty := (blank empty).trans (wf.blank empty)

/-- A fresh map is well formed. -/
theorem handlemapInit_wellFormed {self : Nat} {mem : Mem} {initialCapacity : Nat}
    (pos : 0 < initialCapacity) (initial : handlemapInit E self mem initialCapacity = some map) :
    map.WellFormed E ∧ map.arrLen = 0 ∧ map.self = self ∧ map.freed = [] := by
  obtain ⟨⟨block, mem'⟩, allocated, rfl⟩ := Option.map_eq_some_iff.mp initial
  obtain ⟨blockPos, bounded⟩ := E.allocator.bounded allocated
  refine ⟨⟨intmapInit_sound _ pos _, rfl, fun k slot => ?_, rfl, Nat.zero_le _, pos, blockPos,
    bounded, fun _ => ?_⟩, rfl, rfl, rfl⟩
  · constructor
    · exact fun holds => absurd holds intmapInit_holds
    · rintro ⟨inside, -⟩
      exact absurd inside (Nat.not_lt_zero _)
  · -- `memset` left zeroes over the whole array
    have size := entryMetadataSize_le (E := E)
    have room : 16 ≤ E.arrayElementSize * initialCapacity :=
      size.trans (Nat.le_mul_of_pos_right _ pos)
    have zeroes : (mem'.store block (List.replicate (E.arrayElementSize * initialCapacity) 0)).load
        (block + 4) 4 = List.replicate 4 0 := by
      refine List.ext_getElem (by simp) fun i _ high => ?_
      rw [List.length_replicate] at high
      rw [load_getElem, Nat.add_assoc, store_inside (by rw [List.length_replicate]; omega),
        List.getElem_replicate, List.getElem_replicate]
    show leValue (Mem.load _ (block + E.arrayElementSize * 0 + 4) 4) = 0
    rw [Nat.mul_zero, Nat.add_zero, zeroes]
    rfl

/-- **`allocate_slot`.** The next slot is handed out and every slot keeps its bytes, also when the
array moves to a block of twice the size. -/
theorem allocateSlot_spec {nextId slot : Nat} {grown : HandleMap} (wf : map.WellFormed E)
    (allocated : allocateSlot E { map with nextId := nextId } = some (slot, grown)) :
    slot = map.arrLen ∧ slot < grown.arrCap ∧
      grown.idmap = map.idmap ∧ grown.nextId = nextId ∧ grown.self = map.self ∧
      grown.freed = map.freed ∧ grown.arrLen = map.arrLen + 1 ∧ 0 < grown.arr ∧
      grown.arr + E.arrayElementSize * grown.arrCap ≤ 2 ^ 63 ∧
      ∀ j < map.arrLen, slotBytes E grown j = slotBytes E map j := by
  have capPos := wf.arrCap_pos
  unfold allocateSlot at allocated
  split at allocated
  · rename_i full
    change map.arrLen = map.arrCap at full
    obtain ⟨⟨block, mem'⟩, moved, same⟩ := Option.map_eq_some_iff.mp allocated
    cases same
    obtain ⟨blockPos, bounded⟩ := E.allocator.bounded moved
    refine ⟨rfl, ?_, rfl, rfl, rfl, rfl, rfl, blockPos, ?_, fun j inside => ?_⟩
    · show map.arrLen < map.arrCap * 2
      omega
    · show block + E.arrayElementSize * (map.arrCap * 2) ≤ 2 ^ 63
      rw [← Nat.mul_assoc]
      exact bounded
    · show mem'.load (block + E.arrayElementSize * j) E.arrayElementSize =
        map.mem.load (map.arr + E.arrayElementSize * j) E.arrayElementSize
      refine List.ext_getElem (by simp) fun i low _ => ?_
      rw [load_length] at low
      have within : E.arrayElementSize * j + i < E.arrayElementSize * map.arrCap := by
        have := Nat.mul_le_mul_left E.arrayElementSize (show j + 1 ≤ map.arrCap by omega)
        rw [Nat.mul_succ] at this
        omega
      have kept := E.allocator.keeps moved (E.arrayElementSize * j + i) within
        (by show _ < E.arrayElementSize * map.arrCap * 2; omega)
      rw [load_getElem, load_getElem, Nat.add_assoc, Nat.add_assoc]
      exact kept
  · rename_i room
    change ¬ map.arrLen = map.arrCap at room
    cases allocated
    have := wf.arrLen_le
    refine ⟨rfl, ?_, rfl, rfl, rfl, rfl, rfl, wf.arr_pos, wf.bounded, fun _ _ => rfl⟩
    show map.arrLen < map.arrCap
    omega

end Invariant

end Vaudou
