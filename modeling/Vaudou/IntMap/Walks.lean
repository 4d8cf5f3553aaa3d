/-
**Every walk through an integer map ends.**

The links of a table are acyclic, whatever was set and deleted (`Threaded`): a deletion leaves them as they
are, and a new entry is linked to after its own link was cleared. A walk looks at each entry once, so
that it ends after `cap_total` of them (`Threaded.walk_ends`).

`Placed` says what `vd_intmap_set` does to the table behind the growth check, and `StoresAt` what is left of
it when the two writes are not told apart.
-/

import Vaudou.IntMap.Chains

namespace Vaudou

open Vaudou.Links

/-- **The invariant of every map**: the links are acyclic and stay in the table, no more entries are counted
than are in use, and the others are cleared. -/
structure IntMap.Threaded (map : IntMap) : Prop where
  cap_pos : 0 < map.cap
  cap_le : map.cap ≤ map.capTotal
  inside : ∀ i j, map.next i = some j → j < map.capTotal
  acyclic : Acyclic map.next
  counted : map.usecount ≤ map.usedEntries.card
  zeroed : ∀ i, (map.table i).used = false → (map.table i).v = 0

/-- The table with a new entry at `curr`, behind the last entry `chain` of a chain if there is one. -/
structure IntMap.StoresAt (map : IntMap) (chain : Option Nat) (curr k v : Nat) (after : IntMap) :
    Prop where
  cap : after.cap = map.cap
  capTotal : after.capTotal = map.capTotal
  usecount : after.usecount = map.usecount + 1
  noAutogrow : after.noAutogrow = map.noAutogrow
  inside : curr < map.capTotal
  free : (map.table curr).used = false
  entry : after.table curr = ⟨none, true, k, v⟩
  used : ∀ i, i ≠ curr → (after.table i).used = (map.table i).used
  key : ∀ i, i ≠ curr → (after.table i).k = (map.table i).k
  value : ∀ i, i ≠ curr → (after.table i).v = (map.table i).v
  next : ∀ i, i ≠ curr → after.next i = if chain = some i then some curr else map.next i
  ends : ∀ i, chain = some i → map.next i = none

/-- **What `vd_intmap_set` does** behind the growth check, and what it returns. -/
inductive IntMap.Placed (P : IntMapParams) (map : IntMap) (k v : Nat) : Bool → IntMap → Prop
  | full (all : ∀ i < map.capTotal, (map.table i).used = true) : Placed P map k v false map
  | home {after : IntMap} (stores : map.StoresAt none (intmapIndex P map k) k v after) :
      Placed P map k v true after
  | behind {after : IntMap} {last : Nat} (taken : (map.table (intmapIndex P map k)).used = true)
      (path : Linked map.next (intmapIndex P map k) last)
      (stores : map.StoresAt (some last) (intmapFreeScan map map.capTotal (intmapIndex P map k)) k v
        after) : Placed P map k v true after

/-- What `vd_intmap_del` does. -/
inductive IntMap.Deleted (P : IntMapParams) (map : IntMap) (k : Nat) : IntMap → Prop
  | missed (passes : ∀ i, Linked map.next (intmapIndex P map k) i → intmapStops map k i = false) :
      Deleted P map k map
  | cleared (entry : Nat)
      (path : Linked (upTo map.next (intmapStops map k)) (intmapIndex P map k) entry)
      (stops : intmapStops map k entry = true) : Deleted P map k (intmapClear map entry)

section Walks

variable {P : IntMapParams} {map after : IntMap} {k v curr : Nat} {chain : Option Nat}

theorem IntMap.Threaded.index_lt (threaded : map.Threaded) (k : Nat) :
    intmapIndex P map k < map.capTotal :=
  lt_of_lt_of_le (Nat.mod_lt _ threaded.cap_pos) threaded.cap_le

/-- Links stay in the table. -/
theorem IntMap.Threaded.linked_lt (threaded : map.Threaded) {i j : Nat} (inside : i < map.capTotal)
    (path : Linked map.next i j) : j < map.capTotal :=
  path.closed (P := fun x => x < map.capTotal) (fun x y _ link => threaded.inside x y link) inside

/-- **A walk ends** after at most `cap_total` entries, wherever it stops. -/
theorem IntMap.Threaded.walk_ends (threaded : map.Threaded) (stop : Nat → Bool) {i fuel : Nat}
    (inside : i < map.capTotal) (enough : map.capTotal ≤ fuel) :
    follow map.next stop fuel i ≠ none := by
  have reach : ∀ c, Linked map.next i c → c ∈ Finset.range map.capTotal := fun c path =>
    Finset.mem_range.mpr (threaded.linked_lt inside path)
  exact follow_bounded threaded.acyclic reach (by rw [Finset.card_range]; exact enough)

/-- A fresh map. -/
theorem intmapInit_threaded (P : IntMapParams) {capTotal : Nat} (pos : 0 < capTotal)
    (noAutogrow : Bool) : (intmapInit P capTotal noAutogrow).Threaded where
  cap_pos := P.reducedCap_pos capTotal pos
  cap_le := P.reducedCap_le capTotal
  inside _ _ link := by cases link
  acyclic i cycle := by
    obtain ⟨j, link, -⟩ := Relation.TransGen.head'_iff.mp cycle
    cases link
  counted := Nat.zero_le _
  zeroed _ _ := rfl

/-- A table with as many entries in use as it has is full. -/
theorem IntMap.all_used (many : map.capTotal ≤ map.usedEntries.card) :
    ∀ i < map.capTotal, (map.table i).used = true := by
  have all : map.usedEntries = Finset.range map.capTotal :=
    Finset.eq_of_subset_of_card_le (Finset.filter_subset _ _) (by rw [Finset.card_range]; exact many)
  intro i inside
  exact (IntMap.mem_usedEntries.mp (all ▸ Finset.mem_range.mpr inside)).2

/-- A full table has as many entries in use as it has. -/
theorem IntMap.card_full (all : ∀ i < map.capTotal, (map.table i).used = true) :
    map.usedEntries.card = map.capTotal := by
  have every : map.usedEntries = Finset.range map.capTotal := by
    ext i
    rw [IntMap.mem_usedEntries, Finset.mem_range]
    exact ⟨And.left, fun inside => ⟨inside, all i inside⟩⟩
  rw [every, Finset.card_range]

/-! ### Setting -/

/-- One more entry is in use. -/
theorem IntMap.StoresAt.usedEntries (stores : map.StoresAt chain curr k v after) :
    after.usedEntries = insert curr map.usedEntries := by
  ext i
  rw [Finset.mem_insert, IntMap.mem_usedEntries, IntMap.mem_usedEntries, stores.capTotal]
  by_cases same : i = curr
  · subst same
    simp [stores.entry, stores.inside]
  · rw [stores.used i same]
    simp [same]

theorem IntMap.StoresAt.card (stores : map.StoresAt chain curr k v after) :
    after.usedEntries.card = map.usedEntries.card + 1 := by
  have new : curr ∉ map.usedEntries := by
    rw [IntMap.mem_usedEntries, stores.free]
    simp
  rw [stores.usedEntries, Finset.card_insert_of_notMem new]

/-- Links of the new table are old ones, or go to the new entry. -/
theorem IntMap.StoresAt.new (stores : map.StoresAt chain curr k v after) {i j : Nat}
    (link : after.next i = some j) :
    i ≠ curr ∧ (map.next i = some j ∨ (chain = some i ∧ j = curr)) := by
  have other : i ≠ curr := by
    rintro rfl
    rw [IntMap.next, stores.entry] at link
    cases link
  refine ⟨other, ?_⟩
  rw [stores.next i other] at link
  split at link
  · next same => exact Or.inr ⟨same, (Option.some.inj link).symm⟩
  · exact Or.inl link

/-- No link is lost but that of the new entry. -/
theorem IntMap.StoresAt.kept (stores : map.StoresAt chain curr k v after) {i j : Nat} (other : i ≠ curr)
    (link : map.next i = some j) : after.next i = some j := by
  rw [stores.next i other, if_neg, link]
  intro same
  rw [stores.ends i same] at link
  cases link

theorem IntMap.StoresAt.threaded (threaded : map.Threaded)
    (stores : map.StoresAt chain curr k v after) : after.Threaded where
  cap_pos := stores.cap ▸ threaded.cap_pos
  cap_le := by
    rw [stores.cap, stores.capTotal]
    exact threaded.cap_le
  inside i j link := by
    rw [stores.capTotal]
    rcases (stores.new link).2 with old | ⟨-, rfl⟩
    · exact threaded.inside i j old
    · exact stores.inside
  acyclic := by
    refine threaded.acyclic.link (x := curr) ?_ fun i j link => ?_
    · rw [IntMap.next, stores.entry]
    · exact (stores.new link).2.imp_right And.right
  counted := by
    rw [stores.usecount, stores.card]
    exact Nat.succ_le_succ threaded.counted
  zeroed i unused := by
    by_cases same : i = curr
    · subst same
      rw [stores.entry] at unused
      cases unused
    · rw [stores.value i same]
      exact threaded.zeroed i (by rwa [← stores.used i same])

/-- The store into the home bucket. -/
theorem intmapStore_storesAt (inside : curr < map.capTotal) (free : (map.table curr).used = false) :
    map.StoresAt none curr k v (intmapStore map curr k v) where
  cap := rfl
  capTotal := rfl
  usecount := rfl
  noAutogrow := rfl
  inside := inside
  free := free
  entry := by rw [intmapStore_table, if_pos rfl]
  used i other := by rw [intmapStore_table, if_neg other]
  key i other := by rw [intmapStore_table, if_neg other]
  value i other := by rw [intmapStore_table, if_neg other]
  next i other := by
    rw [intmapStore_next, if_neg other]
    rfl
  ends i same := by cases same

/-- The table after a link, entry by entry. -/
theorem intmapLink_next (map : IntMap) (chain curr i : Nat) :
    (intmapLink map chain curr).next i = if i = chain then some curr else map.next i := by
  unfold IntMap.next intmapLink
  simp only [Function.update_apply]
  split <;> rfl

theorem intmapLink_table (map : IntMap) (chain curr i : Nat) :
    ((intmapLink map chain curr).table i).used = (map.table i).used ∧
      ((intmapLink map chain curr).table i).k = (map.table i).k ∧
      ((intmapLink map chain curr).table i).v = (map.table i).v := by
  unfold intmapLink
  simp only [Function.update_apply]
  split
  · next same =>
    subst same
    exact ⟨rfl, rfl, rfl⟩
  · exact ⟨rfl, rfl, rfl⟩

/-- The store behind the last entry of a chain. -/
theorem intmapStore_link_storesAt {last : Nat} (ends : map.next last = none)
    (inside : curr < map.capTotal) (free : (map.table curr).used = false) :
    map.StoresAt (some last) curr k v (intmapStore (intmapLink map last curr) curr k v) where
  cap := rfl
  capTotal := rfl
  usecount := rfl
  noAutogrow := rfl
  inside := inside
  free := free
  entry := by rw [intmapStore_table, if_pos rfl]
  used i other := by rw [intmapStore_table, if_neg other, (intmapLink_table map last curr i).1]
  key i other := by rw [intmapStore_table, if_neg other, (intmapLink_table map last curr i).2.1]
  value i other := by rw [intmapStore_table, if_neg other, (intmapLink_table map last curr i).2.2]
  next i other := by
    rw [intmapStore_next, if_neg other, intmapLink_next]
    simp only [Option.some.injEq, eq_comm]
  ends i same := by
    obtain rfl := Option.some.inj same
    exact ends

/-- The search for a free entry ends at one that is not used, if the table has one. -/
theorem intmapFreeScan_used {home : Nat}
    (taken : (map.table (intmapFreeScan map map.capTotal home)).used = true) :
    ∀ i < map.capTotal, (map.table i).used = true := by
  intro i inside
  by_contra unused
  have free : (map.table (intmapFreeScan map map.capTotal home)).used = false :=
    intmapFreeScan_unused (Bool.eq_false_iff.mpr unused) (Or.inl inside)
  rw [free] at taken
  cases taken

/-- **`vd_intmap_set` behind the growth check** ends. -/
theorem intmapPlace_placed (threaded : map.Threaded) (k v : Nat) :
    ∃ stored after, intmapPlace P map k v = some (stored, after) ∧ map.Placed P k v stored after := by
  have home := threaded.index_lt (P := P) k
  unfold intmapPlace
  by_cases taken : (map.table (intmapIndex P map k)).used = true
  · by_cases full : (map.table (intmapFreeScan map map.capTotal (intmapIndex P map k))).used = true
    · simp only [taken, full, if_true]
      exact ⟨false, map, rfl, .full (intmapFreeScan_used full)⟩
    · have free := Bool.eq_false_iff.mpr full
      have inside : intmapFreeScan map map.capTotal (intmapIndex P map k) < map.capTotal :=
        intmapFreeScan_lt le_rfl home
      obtain ⟨last, walked, path, ends⟩ := follow_last
        (threaded.walk_ends (fun i => (map.next i).isNone) home (Nat.le_succ _))
      simp only [taken, full, if_true, Bool.false_eq_true, if_false, walked]
      exact ⟨true, _, rfl, .behind taken path (intmapStore_link_storesAt ends inside free)⟩
  · have free := Bool.eq_false_iff.mpr taken
    simp only [free, Bool.false_eq_true, if_false]
    exact ⟨true, _, rfl, .home (intmapStore_storesAt home free)⟩

/-- A set keeps the links acyclic. -/
theorem IntMap.Placed.threaded {stored : Bool} (threaded : map.Threaded)
    (placed : map.Placed P k v stored after) : after.Threaded := by
  cases placed with
  | full _ => exact threaded
  | home stores => exact stores.threaded threaded
  | behind _ _ stores => exact stores.threaded threaded

/-! ### Deleting -/

theorem intmapClear_next (map : IntMap) (entry : Nat) : (intmapClear map entry).next = map.next := by
  funext i
  unfold IntMap.next intmapClear
  simp only [Function.update_apply]
  split
  · next same => rw [same]
  · rfl

theorem intmapClear_other {entry i : Nat} (other : i ≠ entry) :
    (intmapClear map entry).table i = map.table i := Function.update_of_ne other _ _

theorem intmapClear_entry (map : IntMap) (entry : Nat) :
    (intmapClear map entry).table entry = { map.table entry with used := false, k := 0, v := 0 } :=
  Function.update_self _ _ _

theorem intmapClear_usedEntries (map : IntMap) (entry : Nat) :
    (intmapClear map entry).usedEntries = map.usedEntries.erase entry := by
  ext i
  rw [Finset.mem_erase, IntMap.mem_usedEntries, IntMap.mem_usedEntries]
  by_cases same : i = entry
  · subst same
    simp [intmapClear_entry]
  · rw [intmapClear_other same]
    simp [same, intmapClear]

theorem intmapClear_threaded (threaded : map.Threaded) (entry : Nat) :
    (intmapClear map entry).Threaded where
  cap_pos := threaded.cap_pos
  cap_le := threaded.cap_le
  inside i j link := threaded.inside i j (by rwa [intmapClear_next] at link)
  acyclic := by
    rw [intmapClear_next]
    exact threaded.acyclic
  counted := by
    have counted := threaded.counted
    have erased := Finset.pred_card_le_card_erase (s := map.usedEntries) (a := entry)
    rw [intmapClear_usedEntries]
    show (if 0 < map.usecount then map.usecount - 1 else map.usecount) ≤ _
    split <;> omega
  zeroed i unused := by
    by_cases same : i = entry
    · subst same
      rw [intmapClear_entry]
    · rw [intmapClear_other same] at unused ⊢
      exact threaded.zeroed i unused

/-- **`vd_intmap_del`** ends. -/
theorem intmapDel_deleted (threaded : map.Threaded) (k : Nat) :
    ∃ after, intmapDel P map k = some after ∧ map.Deleted P k after := by
  have ends := threaded.walk_ends (intmapStops map k) (threaded.index_lt (P := P) k) (Nat.le_succ _)
  unfold intmapDel
  rcases walked : follow map.next (intmapStops map k) (map.capTotal + 1) (intmapIndex P map k)
    with _ | _ | entry
  · exact absurd walked ends
  · exact ⟨map, rfl, .missed ((follow_missed_iff ends).mp walked)⟩
  · obtain ⟨path, stops⟩ := follow_found walked
    exact ⟨_, rfl, .cleared entry path stops⟩

theorem IntMap.Deleted.threaded (threaded : map.Threaded) (deleted : map.Deleted P k after) :
    after.Threaded := by
  cases deleted with
  | missed _ => exact threaded
  | cleared entry _ _ => exact intmapClear_threaded threaded entry

end Walks

end Vaudou
