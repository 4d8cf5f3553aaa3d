/-
**The integer map of `intmap.c`: a table of entries with coalesced chaining.**

`VD_IntMap` keeps `cap_total` entries in one table. A key hashes to one of the first `cap` of them
(its home bucket); an overflow entry is taken from the end of the same table and linked behind the
last entry of the chain that starts at the home bucket. `next` is an index into the table here
instead of a pointer into it.

Two things come from outside: the hash function, and the bucket count `cap`, which the source
computes from `cap_total` in floating point (`IntMapParams`). Keys, values and counts are naturals:
no operation does arithmetic on a key or a value, and a table of `2 ^ 64` entries does not fit the
address space.
-/

import Vaudou.Foundation.Links

namespace Vaudou

open Vaudou.Links

/-- `vd_hash` on a key, and `cap_total - (u64)((float)cap_total * 0.20f)`. -/
structure IntMapParams where
  hash : Nat → Nat
  reducedCap : Nat → Nat
  reducedCap_pos : ∀ capTotal, 0 < capTotal → 0 < reducedCap capTotal
  reducedCap_le : ∀ capTotal, reducedCap capTotal ≤ capTotal

/-- `VD_IntMapEntry`. -/
structure IntMapEntry where
  next : Option Nat
  used : Bool
  k : Nat
  v : Nat
deriving DecidableEq, Repr

/-- An entry of a table cleared by `memset`. -/
def IntMapEntry.zero : IntMapEntry := ⟨none, false, 0, 0⟩

/-- `VD_IntMap`, less its allocator. `noAutogrow` is `VD_INTMAP_FLAG_NO_AUTOGROW`. -/
structure IntMap where
  table : Nat → IntMapEntry
  cap : Nat
  capTotal : Nat
  usecount : Nat
  noAutogrow : Bool

/-- The `next` links of a table. -/
def IntMap.next (map : IntMap) (index : Nat) : Option Nat := (map.table index).next

section Operations

variable (P : IntMapParams)

/-- `vd_intmap_init`. -/
def intmapInit (capTotal : Nat) (noAutogrow : Bool) : IntMap where
  table _ := IntMapEntry.zero
  cap := P.reducedCap capTotal
  capTotal := capTotal
  usecount := 0
  noAutogrow := noAutogrow

/-- The home bucket of a key: `hash % map->cap`. -/
def intmapIndex (map : IntMap) (k : Nat) : Nat := P.hash k % map.cap

/-- The loop of `vd_intmap_tryget` runs on while this is false. -/
def intmapStops (map : IntMap) (k index : Nat) : Bool :=
  !((map.table index).used && (map.table index).k != k)

/-- `vd_intmap_tryget`: the value found, or `none` for a return of 0. The outer `none` is a walk
over more than `cap_total` entries. -/
def intmapTryget (map : IntMap) (k : Nat) : Option (Option Nat) :=
  (follow map.next (intmapStops map k) (map.capTotal + 1) (intmapIndex P map k)).map
    fun found => found.map fun index => (map.table index).v

/-- Clear an entry; its link stays: `entry->used = 0; ...; map->usecount--`. -/
def intmapClear (map : IntMap) (entry : Nat) : IntMap :=
  { map with
    table := Function.update map.table entry { map.table entry with used := false, k := 0, v := 0 }
    usecount := if 0 < map.usecount then map.usecount - 1 else map.usecount }

/-- `vd_intmap_del`. The walk stops at the key or at an entry that is not used, like that of
`vd_intmap_tryget`, and the entry is cleared in both cases. The `none` is a walk over more than
`cap_total` entries. -/
def intmapDel (map : IntMap) (k : Nat) : Option IntMap :=
  (follow map.next (intmapStops map k) (map.capTotal + 1) (intmapIndex P map k)).map fun
    | none => map
    | some entry => intmapClear map entry

/-- The search for a free entry from the end of the table:
`while (curr->used && cursor > 0) { cursor--; curr = &map->table[cursor]; }`. -/
def intmapFreeScan (map : IntMap) : (cursor curr : Nat) → Nat
  | 0, curr => curr
  | cursor + 1, curr => if (map.table curr).used then intmapFreeScan map cursor cursor else curr

/-- Write a fresh entry at the end of its chain: `curr->used = 1; ...; map->usecount++`. -/
def intmapStore (map : IntMap) (curr k v : Nat) : IntMap :=
  { map with
    table := Function.update map.table curr ⟨none, true, k, v⟩
    usecount := map.usecount + 1 }

/-- `chain->next = curr`. -/
def intmapLink (map : IntMap) (chain curr : Nat) : IntMap :=
  { map with
    table := Function.update map.table chain { map.table chain with next := some curr } }

/-- `vd_intmap_set` after the growth check. The outer `none` is a chain that does not end. -/
def intmapPlace (map : IntMap) (k v : Nat) : Option (Bool × IntMap) :=
  let existing := intmapIndex P map k
  if (map.table existing).used then
    let curr := intmapFreeScan map map.capTotal existing
    if (map.table curr).used then some (false, map)
    else
      match follow map.next (fun index => (map.next index).isNone) (map.capTotal + 1) existing with
      | some (some chain) => some (true, intmapStore (intmapLink map chain curr) curr k v)
      | _ => none
  else some (true, intmapStore map existing k v)

/-- One round of the copy loop of `vd_intmap_check_grow`, over the old entry `i`. -/
def intmapCopyEntry (set : IntMap → Nat → Nat → Option (Bool × IntMap)) (map : IntMap)
    (newMap : IntMap) (i : Nat) : Option IntMap :=
  if (map.table i).used then
    (set newMap (map.table i).k (map.table i).v).map Prod.snd
  else some newMap

/-- `vd_intmap_check_grow`, with the `vd_intmap_set` it copies through. -/
def intmapCheckGrowWith (set : IntMap → Nat → Nat → Option (Bool × IntMap)) (map : IntMap) :
    Option (Bool × IntMap) :=
  if map.usecount ≠ map.capTotal then some (false, map)
  else ((List.range map.capTotal).foldlM (intmapCopyEntry set map)
    (intmapInit P (map.capTotal * 2) map.noAutogrow)).map fun newMap => (true, newMap)

/-- `vd_intmap_set`, with at most `depth` of its calls active at once: the growth check copies the
old table with `vd_intmap_set`, which checks for growth again. -/
def intmapSetNested : Nat → IntMap → Nat → Nat → Option (Bool × IntMap)
  | 0, _, _, _ => none
  | depth + 1, map, k, v =>
    if map.noAutogrow then intmapPlace P map k v
    else (intmapCheckGrowWith P (intmapSetNested depth) map).bind fun checked =>
      intmapPlace P checked.2 k v

/-- `vd_intmap_set`. The map a growth copies into has room for every entry of the old one, so a
copying call never grows again. -/
def intmapSet (map : IntMap) (k v : Nat) : Option (Bool × IntMap) := intmapSetNested P 2 map k v

end Operations

end Vaudou
