/-
**The handle map of `handlemap.c`: reference-counted slots behind ids.**

A handle carries an id; the integer map takes the id to a slot of the slot array, and a slot is an
`EntryMetadata` (`int refcount`, `int refmode`, `u64 id`: 16 bytes) followed by the `elsize` bytes of
the object. The slot array lives in byte memory at `arr` and moves when it grows.

From outside come the integer map's parameters, the allocation procedure, `sizeof(*m)` and the free
callback (`HandleMapEnv`). The callback gets a pointer to the object's bytes and may leave anything
in them; which slots it has been called on is recorded in `freed`, oldest first.

A step is `none` where the source has no defined behaviour: an allocation that fails is dereferenced,
the assertion of `vd_handle_drop` aborts, a signed reference count overflows. Ids, counts and sizes
are naturals: every slot takes at least 16 bytes of an address space of `2 ^ 64`, so `next_id`,
`arr_cap` and the byte sizes computed from them stay below `2 ^ 64`.
-/

import Vaudou.Foundation.Memory
import Vaudou.IntMap.Growth

namespace Vaudou

open Vaudou.Memory

/-- `VD_HandleMapRefMode`. -/
inductive RefMode where
  | always
  | count
deriving DecidableEq, Repr

/-- The enumeration value of a reference mode. -/
def RefMode.toNat : RefMode → Nat
  | .always => 0
  | .count => 1

/-- What a handle map takes from outside. -/
structure HandleMapEnv where
  intmap : IntMapParams
  allocator : Realloc
  elsize : Nat
  onFreeObject : List UInt8 → List UInt8
  onFreeObject_length : ∀ bytes, (onFreeObject bytes).length = bytes.length

/-- `VD_Handle`; `map` is the address of the map's header. -/
structure Handle where
  id : Nat
  map : Nat
deriving DecidableEq, Repr

/-- The null handle. -/
def Handle.null : Handle := ⟨0, 0⟩

/-- `VD_HandleMap` at the address `self`, with the memory its slot array lies in. -/
structure HandleMap where
  self : Nat
  mem : Mem
  arr : Nat
  arrLen : Nat
  arrCap : Nat
  idmap : IntMap
  nextId : Nat
  freed : List Nat

/-- `sizeof(EntryMetadata)`. -/
def entryMetadataSize : Nat := 16

/-- `array_element_size`. -/
def HandleMapEnv.arrayElementSize (E : HandleMapEnv) : Nat := entryMetadataSize + E.elsize

section Operations

variable (E : HandleMapEnv)

/-- `get_slot_metadata_ptr`. -/
def slotMetadataPtr (map : HandleMap) (slot : Nat) : Nat := map.arr + E.arrayElementSize * slot

/-- `get_slot_value_ptr`. -/
def slotValuePtr (map : HandleMap) (slot : Nat) : Nat :=
  map.arr + E.arrayElementSize * slot + entryMetadataSize

/-- `metadata->refcount`. -/
def slotRefcount (map : HandleMap) (slot : Nat) : Int :=
  map.mem.readInt (slotMetadataPtr E map slot) 4

/-- `metadata->refmode`. -/
def slotRefmode (map : HandleMap) (slot : Nat) : Nat :=
  map.mem.readNat (slotMetadataPtr E map slot + 4) 4

/-- `metadata->id`. -/
def slotId (map : HandleMap) (slot : Nat) : Nat :=
  map.mem.readNat (slotMetadataPtr E map slot + 8) 8

/-- The bytes of the object in a slot. -/
def slotValue (map : HandleMap) (slot : Nat) : List UInt8 :=
  map.mem.load (slotValuePtr E map slot) E.elsize

/-- `metadata->refcount = count`. -/
def setSlotRefcount (map : HandleMap) (slot : Nat) (count : Int) : HandleMap :=
  { map with mem := map.mem.writeInt (slotMetadataPtr E map slot) 4 count }

/-- `metadata->id = id`. -/
def setSlotId (map : HandleMap) (slot id : Nat) : HandleMap :=
  { map with mem := map.mem.writeNat (slotMetadataPtr E map slot + 8) 8 id }

/-- `metadata->refmode = mode`. -/
def setSlotRefmode (map : HandleMap) (slot : Nat) (mode : RefMode) : HandleMap :=
  { map with mem := map.mem.writeNat (slotMetadataPtr E map slot + 4) 4 mode.toNat }

/-- Write the bytes of the object in a slot. -/
def setSlotValue (map : HandleMap) (slot : Nat) (value : List UInt8) : HandleMap :=
  { map with mem := map.mem.store (slotValuePtr E map slot) value }

/-- `map->on_free_object(get_slot_value_ptr(map, slot), map->c)`. -/
def callOnFreeObject (map : HandleMap) (slot : Nat) : HandleMap :=
  { setSlotValue E map slot (E.onFreeObject (slotValue E map slot)) with
    freed := map.freed ++ [slot] }

/-- `vd_handlemap__init`, with the header at `self`. -/
def handlemapInit (self : Nat) (mem : Mem) (initialCapacity : Nat) : Option HandleMap :=
  (E.allocator.realloc mem 0 0 (E.arrayElementSize * initialCapacity)).map fun block =>
    { self := self
      mem := block.2.store block.1 (List.replicate (E.arrayElementSize * initialCapacity) 0)
      arr := block.1
      arrLen := 0
      arrCap := initialCapacity
      idmap := intmapInit E.intmap initialCapacity false
      nextId := 1
      freed := [] }

/-- `allocate_slot`: the slot, in the map that has it. -/
def allocateSlot (map : HandleMap) : Option (Nat × HandleMap) :=
  if map.arrLen = map.arrCap then
    (E.allocator.realloc map.mem map.arr (E.arrayElementSize * map.arrCap)
      (E.arrayElementSize * map.arrCap * 2)).map fun block =>
        (map.arrLen, { map with
          mem := block.2, arr := block.1, arrCap := map.arrCap * 2, arrLen := map.arrLen + 1 })
  else some (map.arrLen, { map with arrLen := map.arrLen + 1 })

/-- The writes of `vd_handlemap__register` into its slot, in the order of the source. -/
def fillSlot (map : HandleMap) (slot id : Nat) (mode : RefMode) (value : List UInt8) : HandleMap :=
  setSlotValue E (setSlotRefmode E (setSlotRefcount E (setSlotId E map slot id) slot 1) slot mode)
    slot value

/-- `vd_handlemap__register`; `value` is the `elsize` bytes behind `valueptr`. -/
def handlemapRegister (hdr : HandleMap) (value : List UInt8) (mode : RefMode) :
    Option (Handle × HandleMap) :=
  let id := hdr.nextId
  (allocateSlot E { hdr with nextId := hdr.nextId + 1 }).bind fun allocated =>
    (intmapSet E.intmap allocated.2.idmap id allocated.1).map fun set =>
      (⟨id, hdr.self⟩, fillSlot E { allocated.2 with idmap := set.2 } allocated.1 id mode value)

/-- `vd_handle_use`: the pointer, 0 for null. The `none` is a lookup that does not end. -/
def handleUse (map : HandleMap) (handle : Handle) : Option Nat :=
  (intmapTryget E.intmap map.idmap handle.id).map fun found =>
    match found with
    | none => 0
    | some slot => slotValuePtr E map slot

/-- `vd_handlemap_copy`. -/
def handlemapCopy (map : HandleMap) (handle : Handle) : Option (Handle × HandleMap) :=
  (intmapTryget E.intmap map.idmap handle.id).bind fun found =>
    match found with
    | none => some (Handle.null, map)
    | some slot =>
      if slotRefmode E map slot = RefMode.count.toNat then
        if slotRefcount E map slot = 2 ^ 31 - 1 then none
        else some (handle, setSlotRefcount E map slot (slotRefcount E map slot + 1))
      else some (handle, map)

/-- The counted branch of `vd_handle_drop`, on a reference count that has been decremented. -/
def dropCounted (map : HandleMap) (slot : Nat) : Option HandleMap :=
  if slotRefcount E map slot < 0 then none
  else if slotRefcount E map slot = 0 then some (setSlotId E (callOnFreeObject E map slot) slot 0)
  else some map

/-- `vd_handle_drop`: the handle variable as the call leaves it, and the map. -/
def handleDrop (map : HandleMap) (handle : Handle) : Option (Handle × HandleMap) :=
  (intmapTryget E.intmap map.idmap handle.id).bind fun found =>
    match found with
    | none => some (handle, map)
    | some slot =>
      if slotRefmode E map slot = RefMode.count.toNat then
        if slotRefcount E map slot = -2 ^ 31 then none
        else (dropCounted E (setSlotRefcount E map slot (slotRefcount E map slot - 1)) slot).map
          fun dropped => ({ handle with id := 0 }, dropped)
      else some ({ handle with id := 0 }, map)

/-- One round of the loop of `vd_handlemap__deinit`. -/
def deinitSlot (map : HandleMap) (i : Nat) : HandleMap :=
  if slotId E map i = 0 then map else callOnFreeObject E map i

/-- `vd_handlemap__deinit`. -/
def handlemapDeinit (map : HandleMap) : HandleMap :=
  (List.range map.arrLen).foldl (deinitSlot E) map

end Operations

end Vaudou
