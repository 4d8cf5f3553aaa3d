/-
**The chains of the integer map: every used entry is reachable from its home bucket.**

Overflow entries sit anywhere in the table, so a key's home bucket may hold an entry of another
chain and chains run into one another. What survives is `Sound`: no key is stored twice, links join
used entries and climb in the order of insertion (so they are acyclic), and every used entry is
reachable along the links from the home bucket of its key.

* `intmapTryget_holds` — on a sound map the walk of `vd_intmap_tryget` finds a stored key.
* `intmapPlace_sound` — storing an absent key in a table that is not full keeps the map sound and
  adds exactly that key: nothing on an existing chain changes but the link of its last entry.
-/

import Vaudou.IntMap.Table
import Mathlib.Data.Finset.Card
import Mathlib.Data.Finset.Range
import Mathlib.Data.Fintype.Basic

namespace Vaudou

open Vaudou.Links

/-- The number of entries marked used. -/
def IntMap.usedEntries (map : IntMap) : Finset Nat :=
  (Finset.range map.capTotal).filter fun i => (map.table i).used = true

/-- The map stores `v` under `k`. -/
def IntMap.Holds (map : IntMap) (k v : Nat) : Prop :=
  ∃ i < map.capTotal, (map.table i).used = true ∧ (map.table i).k = k ∧ (map.table i).v = v

/-- Links join used entries of the table and climb in `rank`, which stays below the use count. -/
structure IntMap.LinksClimb (map : IntMap) (rank : Nat → Nat) : Prop where
  source : ∀ i j, map.next i = some j → (map.table i).used = true
  target : ∀ i j, map.next i = some j → j < map.capTotal ∧ (map.table j).used = true
  rises : ∀ i j, map.next i = some j → rank i < rank j
  below : ∀ i, (map.table i).used = true → rank i < map.usecount

/-- **The invariant of a map that only grows.** -/
structure IntMap.Sound (P : IntMapParams) (map : IntMap) : Prop where
  cap_pos : 0 < map.cap
  cap_le : map.cap ≤ map.capTotal
  count : map.usedEntries.card = map.usecount
  zeroed : ∀ i, (map.table i).used = false → (map.table i).v = 0
  distinct : ∀ i j, i < map.capTotal → j < map.capTotal → (map.table i).used = true →
    (map.table j).used = true → (map.table i).k = (map.table j).k → i = j
  climb : ∃ rank, map.LinksClimb rank
  homed : ∀ i, i < map.capTotal → (map.table i).used = true →
    Linked map.next (intmapIndex P map (map.table i).k) i

section Lookup

variable {P : IntMapParams} {map : IntMap}

theorem intmapIndex_lt (sound : map.Sound P) (k : Nat) : intmapIndex P map k < map.capTotal :=
  lt_of_lt_of_le (Nat.mod_lt _ sound.cap_pos) sound.cap_le

theorem IntMap.mem_usedEntries {i : Nat} :
    i ∈ map.usedEntries ↔ i < map.capTotal ∧ (map.table i).used = true := by
  simp [IntMap.usedEntries]

theorem IntMap.Sound.usecount_le (sound : map.Sound P) : map.usecount ≤ map.capTotal := by
  rw [← sound.count]
  exact (Finset.card_filter_le _ _).trans (by simp)

theorem IntMap.LinksClimb.ranked {rank : Nat → Nat} (climb : map.LinksClimb rank) :
    Ranked map.next rank map.usecount := fun i j link =>
  ⟨climb.rises i j link, climb.below j (climb.target i j link).2⟩

/-- Links lead from used entries of the table to used entries of the table. -/
theorem IntMap.LinksClimb.stays {rank : Nat → Nat} (climb : map.LinksClimb rank) {i j : Nat}
    (path : Linked map.next i j) (inside : i < map.capTotal)
    (used : (map.table i).used = true) : j < map.capTotal ∧ (map.table j).used = true :=
  path.closed (P := fun x => x < map.capTotal ∧ (map.table x).used = true)
    (fun x y _ link => climb.target x y link) ⟨inside, used⟩

theorem intmapStops_iff {k i : Nat} (used : (map.table i).used = true) :
    intmapStops map k i = true ↔ (map.table i).k = k := by
  simp [intmapStops, used]

/-- **A stored key is found.** -/
theorem intmapTryget_holds (sound : map.Sound P) {k v : Nat} (holds : map.Holds k v) :
    intmapTryget P map k = some (some v) := by
  obtain ⟨i, inside, used, rfl, rfl⟩ := holds
  obtain ⟨rank, climb⟩ := sound.climb
  have path := sound.homed i inside used
  -- the home bucket is used: it is the entry itself or it links on
  have homeUsed : (map.table (intmapIndex P map (map.table i).k)).used = true := by
    rcases path.cases with same | ⟨b, link, -⟩
    · rwa [same]
    · exact climb.source _ _ link
  have unique : ∀ c, Linked map.next (intmapIndex P map (map.table i).k) c →
      intmapStops map (map.table i).k c = true → c = i := by
    intro c reach stops
    obtain ⟨cInside, cUsed⟩ := climb.stays reach (intmapIndex_lt sound _) homeUsed
    exact sound.distinct c i cInside inside cUsed used ((intmapStops_iff cUsed).mp stops)
  have room : map.usecount - rank (intmapIndex P map (map.table i).k) < map.capTotal + 1 := by
    have := sound.usecount_le
    omega
  rw [intmapTryget, follow_unique climb.ranked room path ((intmapStops_iff used).mpr rfl) unique]
  rfl

/-- What a lookup returns on a sound map: the value of a stored key, or the 0 of an entry that is
not used, or nothing. -/
theorem intmapTryget_cases (sound : map.Sound P) (k : Nat) :
    intmapTryget P map k = some none ∨
      ∃ v, intmapTryget P map k = some (some v) ∧ (v = 0 ∨ map.Holds k v) := by
  obtain ⟨rank, climb⟩ := sound.climb
  have room : map.usecount - rank (intmapIndex P map k) < map.capTotal + 1 := by
    have := sound.usecount_le
    omega
  rcases walked : follow map.next (intmapStops map k) (map.capTotal + 1) (intmapIndex P map k)
    with _ | _ | found
  · exact absurd walked (follow_ne_none climb.ranked room)
  · left
    rw [intmapTryget, walked]
    rfl
  · right
    refine ⟨(map.table found).v, by rw [intmapTryget, walked]; rfl, ?_⟩
    by_cases used : (map.table found).used = true
    · obtain ⟨path, stops⟩ := follow_eq_some walked
      have inside : found < map.capTotal := by
        rcases path.cases with rfl | ⟨b, link, -⟩
        · exact intmapIndex_lt sound k
        · exact (climb.stays path (intmapIndex_lt sound k) (climb.source _ _ link)).1
      exact Or.inr ⟨found, inside, used, (intmapStops_iff used).mp stops, rfl⟩
    · exact Or.inl (sound.zeroed found (by simpa using used))

/-- A sound map stores at most one value under a key. -/
theorem IntMap.Sound.holds_unique (sound : map.Sound P) {k v w : Nat} (first : map.Holds k v)
    (second : map.Holds k w) : v = w := by
  have found := intmapTryget_holds sound first
  rw [intmapTryget_holds sound second] at found
  simpa using found.symm

end Lookup

section Empty

/-- A fresh map is sound and stores nothing. -/
theorem intmapInit_sound (P : IntMapParams) {capTotal : Nat} (pos : 0 < capTotal)
    (noAutogrow : Bool) : (intmapInit P capTotal noAutogrow).Sound P where
  cap_pos := P.reducedCap_pos capTotal pos
  cap_le := P.reducedCap_le capTotal
  count := by simp [IntMap.usedEntries, intmapInit, IntMapEntry.zero]
  zeroed _ _ := rfl
  distinct i j _ _ used := by cases used
  climb := ⟨fun _ => 0, (fun _ _ link => by cases link), (fun _ _ link => by cases link),
    (fun _ _ link => by cases link), (fun _ used => by cases used)⟩
  homed i _ used := by cases used

theorem intmapInit_holds {P : IntMapParams} {capTotal k v : Nat} {noAutogrow : Bool} :
    ¬ (intmapInit P capTotal noAutogrow).Holds k v := by
  rintro ⟨i, -, used, -⟩
  cases used

end Empty

/-! ### Storing an absent key -/

section Place

variable {P : IntMapParams} {map : IntMap}

/-- The scan for a free entry finds one when the table has one. -/
theorem intmapFreeScan_unused {i : Nat} (unused : (map.table i).used = false) :
    ∀ {cursor curr : Nat}, i < cursor ∨ i = curr →
      (map.table (intmapFreeScan map cursor curr)).used = false
  | 0, curr, before => by
    obtain rfl : i = curr := by omega
    exact unused
  | cursor + 1, curr, before => by
    unfold intmapFreeScan
    split
    · rename_i taken
      refine intmapFreeScan_unused unused ?_
      rcases before with before | rfl
      · omega
      · rw [unused] at taken
        cases taken
    · rename_i free
      simpa using free

theorem intmapFreeScan_lt {bound : Nat} :
    ∀ {cursor curr : Nat}, cursor ≤ bound → curr < bound → intmapFreeScan map cursor curr < bound
  | 0, _, _, inside => inside
  | cursor + 1, curr, within, inside => by
    unfold intmapFreeScan
    split
    · exact intmapFreeScan_lt (by omega) (by omega)
    · exact inside

/-- A table that is not full has a free entry. -/
theorem IntMap.Sound.exists_unused (sound : map.Sound P) (room : map.usecount < map.capTotal) :
    ∃ i < map.capTotal, (map.table i).used = false := by
  by_contra full
  push Not at full
  have all : map.usedEntries = Finset.range map.capTotal := by
    ext i
    rw [IntMap.mem_usedEntries, Finset.mem_range]
    exact ⟨fun both => both.1, fun inside => ⟨inside, by simpa using full i inside⟩⟩
  have counted := sound.count
  rw [all, Finset.card_range] at counted
  omega

/-- What storing in the free entry `curr` asks of the table it stores into: the table is `map` up to
the link of one used last entry, which now names `curr`. -/
structure LinkedOnto (map linked : IntMap) (curr : Nat) : Prop where
  cap : linked.cap = map.cap
  capTotal : linked.capTotal = map.capTotal
  usecount : linked.usecount = map.usecount
  noAutogrow : linked.noAutogrow = map.noAutogrow
  used : ∀ i, (linked.table i).used = (map.table i).used
  key : ∀ i, (linked.table i).k = (map.table i).k
  value : ∀ i, (linked.table i).v = (map.table i).v
  kept : ∀ i j, map.next i = some j → linked.next i = some j
  new : ∀ i j, linked.next i = some j → map.next i = some j ∨
    (j = curr ∧ (map.table i).used = true)

theorem LinkedOnto.refl (map : IntMap) (curr : Nat) : LinkedOnto map map curr :=
  ⟨rfl, rfl, rfl, rfl, fun _ => rfl, fun _ => rfl, fun _ => rfl, fun _ _ link => link,
    fun _ _ link => Or.inl link⟩

/-- Linking an entry behind the end of a chain breaks no link. -/
theorem intmapLink_linkedOnto {chain : Nat} (curr : Nat) (ends : map.next chain = none)
    (used : (map.table chain).used = true) : LinkedOnto map (intmapLink map chain curr) curr where
  cap := rfl
  capTotal := rfl
  usecount := rfl
  noAutogrow := rfl
  used i := by by_cases same : i = chain <;> simp [intmapLink, same]
  key i := by by_cases same : i = chain <;> simp [intmapLink, same]
  value i := by by_cases same : i = chain <;> simp [intmapLink, same]
  kept i j link := by
    have different : i ≠ chain := fun same => by
      rw [same, ends] at link
      cases link
    simpa [IntMap.next, intmapLink, different] using link
  new i j link := by
    by_cases same : i = chain
    · subst same
      refine Or.inr ⟨?_, used⟩
      simpa [IntMap.next, intmapLink, eq_comm] using link
    · refine Or.inl ?_
      simpa [IntMap.next, intmapLink, same] using link

/-- The table after a store, entry by entry. -/
theorem intmapStore_table (map : IntMap) (curr k v i : Nat) :
    (intmapStore map curr k v).table i =
      if i = curr then ⟨none, true, k, v⟩ else map.table i := by
  simp [intmapStore, Function.update_apply]

theorem intmapStore_next (map : IntMap) (curr k v i : Nat) :
    (intmapStore map curr k v).next i = if i = curr then none else map.next i := by
  unfold IntMap.next
  rw [intmapStore_table]
  split <;> rfl

section Store

variable {linked : IntMap} {curr k v : Nat}

/-- The other entries keep their use, key and value. -/
theorem intmapStore_other (onto : LinkedOnto map linked curr) {i : Nat} (different : i ≠ curr) :
    ((intmapStore linked curr k v).table i).used = (map.table i).used ∧
      ((intmapStore linked curr k v).table i).k = (map.table i).k ∧
      ((intmapStore linked curr k v).table i).v = (map.table i).v := by
  rw [intmapStore_table, if_neg different]
  exact ⟨onto.used i, onto.key i, onto.value i⟩

theorem intmapStore_capTotal (onto : LinkedOnto map linked curr) :
    (intmapStore linked curr k v).capTotal = map.capTotal := onto.capTotal

/-- No old link is lost: the free entry had none. -/
theorem intmapStore_keeps_links (onto : LinkedOnto map linked curr) {rank : Nat → Nat}
    (climb : map.LinksClimb rank) (free : (map.table curr).used = false) {i j : Nat}
    (link : map.next i = some j) : (intmapStore linked curr k v).next i = some j := by
  have different : i ≠ curr := fun same => by
    have used := climb.source i j link
    rw [same, free] at used
    cases used
  rw [intmapStore_next, if_neg different]
  exact onto.kept i j link

/-- One more entry is used. -/
theorem intmapStore_usedEntries (onto : LinkedOnto map linked curr) (inside : curr < map.capTotal) :
    (intmapStore linked curr k v).usedEntries = insert curr map.usedEntries := by
  ext i
  rw [Finset.mem_insert, IntMap.mem_usedEntries, IntMap.mem_usedEntries, intmapStore_capTotal onto]
  by_cases same : i = curr
  · subst same
    simp [intmapStore_table, inside]
  · rw [(intmapStore_other onto same).1]
    simp [same]

/-- An absent key stays stored once. -/
theorem intmapStore_distinct (sound : map.Sound P) (onto : LinkedOnto map linked curr)
    (absent : ∀ w, ¬ map.Holds k w) {i j : Nat} (iInside : i < map.capTotal)
    (jInside : j < map.capTotal) (iUsed : ((intmapStore linked curr k v).table i).used = true)
    (jUsed : ((intmapStore linked curr k v).table j).used = true)
    (sameKey : ((intmapStore linked curr k v).table i).k =
      ((intmapStore linked curr k v).table j).k) : i = j := by
  have newKey : ((intmapStore linked curr k v).table curr).k = k := by
    rw [intmapStore_table, if_pos rfl]
  -- an old entry never carries the new key
  have clash : ∀ x, x < map.capTotal → x ≠ curr →
      ((intmapStore linked curr k v).table x).used = true →
      ((intmapStore linked curr k v).table x).k ≠ k := by
    intro x xInside different xUsed same
    rw [(intmapStore_other onto different).1] at xUsed
    rw [(intmapStore_other onto different).2.1] at same
    exact absent _ ⟨x, xInside, xUsed, same, rfl⟩
  by_cases iNew : i = curr
  · by_cases jNew : j = curr
    · rw [iNew, jNew]
    · rw [iNew, newKey] at sameKey
      exact absurd sameKey.symm (clash j jInside jNew jUsed)
  · by_cases jNew : j = curr
    · rw [jNew, newKey] at sameKey
      exact absurd sameKey (clash i iInside iNew iUsed)
    · rw [(intmapStore_other onto iNew).1] at iUsed
      rw [(intmapStore_other onto jNew).1] at jUsed
      rw [(intmapStore_other onto iNew).2.1, (intmapStore_other onto jNew).2.1] at sameKey
      exact sound.distinct i j iInside jInside iUsed jUsed sameKey

/-- The new entry ranks above all others. -/
theorem intmapStore_climbs (onto : LinkedOnto map linked curr) (inside : curr < map.capTotal)
    (free : (map.table curr).used = false) {rank : Nat → Nat} (climb : map.LinksClimb rank) :
    (intmapStore linked curr k v).LinksClimb fun i => if i = curr then map.usecount else rank i := by
  have usedOther : ∀ x, (map.table x).used = true → x ≠ curr := fun x used same => by
    rw [same, free] at used
    cases used
  -- a link of the new table is an old one, or the new one to `curr`
  have links : ∀ i j, (intmapStore linked curr k v).next i = some j →
      i ≠ curr ∧ (map.table i).used = true ∧ (map.next i = some j ∨ j = curr) := by
    intro i j link
    rw [intmapStore_next] at link
    split at link
    · cases link
    · rename_i different
      rcases onto.new i j link with old | ⟨same, used⟩
      · exact ⟨different, climb.source i j old, Or.inl old⟩
      · exact ⟨different, used, Or.inr same⟩
  refine ⟨?_, ?_, ?_, ?_⟩
  · intro i j link
    obtain ⟨different, used, -⟩ := links i j link
    rw [(intmapStore_other onto different).1]
    exact used
  · intro i j link
    rw [intmapStore_capTotal onto]
    obtain ⟨-, -, old | rfl⟩ := links i j link
    · obtain ⟨jInside, jUsed⟩ := climb.target i j old
      rw [(intmapStore_other onto (usedOther j jUsed)).1]
      exact ⟨jInside, jUsed⟩
    · rw [intmapStore_table, if_pos rfl]
      exact ⟨inside, rfl⟩
  · intro i j link
    obtain ⟨different, used, old | rfl⟩ := links i j link
    · simp only [if_neg different, if_neg (usedOther j (climb.target i j old).2)]
      exact climb.rises i j old
    · simp only [if_neg different, if_true]
      exact climb.below i used
  · intro i used
    show (if i = curr then map.usecount else rank i) < linked.usecount + 1
    rw [onto.usecount]
    by_cases same : i = curr
    · rw [if_pos same]
      omega
    · rw [if_neg same]
      rw [(intmapStore_other onto same).1] at used
      exact Nat.lt_succ_of_lt (climb.below i used)

/-- **Storing an absent key in a free entry its home bucket reaches keeps the map sound.** -/
theorem intmapStore_sound (sound : map.Sound P) (onto : LinkedOnto map linked curr)
    (inside : curr < map.capTotal) (free : (map.table curr).used = false)
    (absent : ∀ w, ¬ map.Holds k w)
    (reached : intmapIndex P map k = curr ∨
      ∃ last, Linked map.next (intmapIndex P map k) last ∧ last ≠ curr ∧
        linked.next last = some curr) :
    (intmapStore linked curr k v).Sound P := by
  obtain ⟨rank, climb⟩ := sound.climb
  have index : ∀ key, intmapIndex P (intmapStore linked curr k v) key = intmapIndex P map key :=
    fun key => by simp [intmapIndex, intmapStore, onto.cap]
  have capEq : (intmapStore linked curr k v).cap = map.cap := onto.cap
  refine ⟨?_, ?_, ?_, ?_, ?_, ⟨_, intmapStore_climbs onto inside free climb⟩, ?_⟩
  · rw [capEq]
    exact sound.cap_pos
  · rw [capEq, intmapStore_capTotal onto]
    exact sound.cap_le
  · have new : curr ∉ map.usedEntries := by
      rw [IntMap.mem_usedEntries, free]
      simp
    rw [intmapStore_usedEntries onto inside, Finset.card_insert_of_notMem new, sound.count,
      ← onto.usecount]
    rfl
  · intro i unused
    by_cases same : i = curr
    · subst same
      rw [intmapStore_table, if_pos rfl] at unused
      cases unused
    · rw [(intmapStore_other onto same).1] at unused
      rw [(intmapStore_other onto same).2.2]
      exact sound.zeroed i unused
  · intro i j iInside jInside
    rw [intmapStore_capTotal onto] at iInside jInside
    exact intmapStore_distinct sound onto absent iInside jInside
  · intro i iInside iUsed
    rw [index]
    by_cases same : i = curr
    · subst same
      rw [intmapStore_table, if_pos rfl]
      rcases reached with home | ⟨last, path, different, link⟩
      · rw [home]
        exact Linked.refl _ _
      · refine (path.mono fun _ _ => intmapStore_keeps_links onto climb free).push ?_
        rw [intmapStore_next, if_neg different]
        exact link
    · rw [intmapStore_capTotal onto] at iInside
      rw [(intmapStore_other onto same).1] at iUsed
      rw [(intmapStore_other onto same).2.1]
      exact (sound.homed i iInside iUsed).mono fun _ _ => intmapStore_keeps_links onto climb free

/-- A store adds exactly the new pair. -/
theorem intmapStore_holds (onto : LinkedOnto map linked curr) (inside : curr < map.capTotal)
    (free : (map.table curr).used = false) (k' v' : Nat) :
    (intmapStore linked curr k v).Holds k' v' ↔ (k' = k ∧ v' = v) ∨ map.Holds k' v' := by
  have total : (intmapStore linked curr k v).capTotal = map.capTotal := onto.capTotal
  constructor
  · rintro ⟨i, iInside, used, key, value⟩
    rw [total] at iInside
    rw [intmapStore_table] at used key value
    split at used
    · rename_i same
      rw [if_pos same] at key value
      exact Or.inl ⟨key.symm, value.symm⟩
    · rename_i different
      rw [if_neg different, onto.key] at key
      rw [if_neg different, onto.value] at value
      rw [onto.used] at used
      exact Or.inr ⟨i, iInside, used, key, value⟩
  · rintro (⟨rfl, rfl⟩ | ⟨i, iInside, used, key, value⟩)
    · exact ⟨curr, by rw [total]; exact inside, by simp [intmapStore_table]⟩
    · have different : i ≠ curr := fun same => by
        rw [same, free] at used
        cases used
      refine ⟨i, by rw [total]; exact iInside, ?_⟩
      rw [intmapStore_table, if_neg different, onto.used, onto.key, onto.value]
      exact ⟨used, key, value⟩

end Store

/-- **`vd_intmap_set` on an absent key, with room in the table.** It returns 1, keeps the map sound,
and adds exactly the new pair. -/
theorem intmapPlace_sound (sound : map.Sound P) (room : map.usecount < map.capTotal) {k v : Nat}
    (absent : ∀ w, ¬ map.Holds k w) :
    ∃ placed, intmapPlace P map k v = some (true, placed) ∧ placed.Sound P ∧
      (∀ k' v', placed.Holds k' v' ↔ (k' = k ∧ v' = v) ∨ map.Holds k' v') ∧
      placed.usecount = map.usecount + 1 ∧ placed.capTotal = map.capTotal ∧
      placed.noAutogrow = map.noAutogrow := by
  have homeInside := intmapIndex_lt sound k
  unfold intmapPlace
  by_cases taken : (map.table (intmapIndex P map k)).used = true
  · obtain ⟨rank, climb⟩ := sound.climb
    obtain ⟨i, iInside, unused⟩ := sound.exists_unused room
    have free : (map.table (intmapFreeScan map map.capTotal (intmapIndex P map k))).used = false :=
      intmapFreeScan_unused unused (Or.inl iInside)
    have inside : intmapFreeScan map map.capTotal (intmapIndex P map k) < map.capTotal :=
      intmapFreeScan_lt le_rfl homeInside
    have walkRoom : map.usecount - rank (intmapIndex P map k) < map.capTotal + 1 := by omega
    obtain ⟨last, walked, path, ends⟩ := follow_to_end climb.ranked walkRoom
    obtain ⟨lastInside, lastUsed⟩ := climb.stays path homeInside taken
    have different : last ≠ intmapFreeScan map map.capTotal (intmapIndex P map k) := fun same => by
      rw [← same, lastUsed] at free
      cases free
    have onto := intmapLink_linkedOnto (intmapFreeScan map map.capTotal (intmapIndex P map k)) ends
      lastUsed
    simp only [taken, if_true, free, Bool.false_eq_true, if_false, walked]
    refine ⟨_, rfl, ?_, intmapStore_holds onto inside free, rfl, rfl, rfl⟩
    refine intmapStore_sound sound onto inside free absent (Or.inr ⟨last, path, different, ?_⟩)
    simp [IntMap.next, intmapLink]
  · have free : (map.table (intmapIndex P map k)).used = false := by simpa using taken
    have onto := LinkedOnto.refl map (intmapIndex P map k)
    simp only [free, Bool.false_eq_true, if_false]
    exact ⟨_, rfl, intmapStore_sound sound onto homeInside free absent (Or.inl rfl),
      intmapStore_holds onto homeInside free, rfl, rfl, rfl⟩

end Place

end Vaudou
