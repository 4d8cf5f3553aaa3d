/-
**Keys that are set repeatedly in an integer map.**

`vd_intmap_set` does not look for its key: a key that is set again gets a second entry, behind the first
one on its chain. `Finds` is the entry of a key that its chain meets first, which is the one that
`vd_intmap_tryget` returns (`intmapTryget_finds`). In a map that was only set (`Chained`), setting a key
changes what is found for keys without an entry alone (`StoresAt.answers`), and the copy into a larger table
is made in the order of the table, so that afterwards the entry with the lowest index is met first
(`RebuiltUpTo`).

* `intmapSet_checked` — `vd_intmap_set` is the growth check and a store.
* `intmapSet_overwrites_iff` — when a get behind a set returns the value that was set.
-/

import Vaudou.Foundation.Run
import Vaudou.IntMap.Growth
import Vaudou.IntMap.Walks

namespace Vaudou

open Vaudou.Links Vaudou.Run

/-- **The invariant of a map that is only set.** Keys may have any number of entries. -/
structure IntMap.Chained (P : IntMapParams) (map : IntMap) : Prop where
  threaded : map.Threaded
  count : map.usecount = map.usedEntries.card
  linked : ∀ i j, map.next i = some j → (map.table i).used = true ∧ (map.table j).used = true
  homed : ∀ i < map.capTotal, (map.table i).used = true →
    Linked map.next (intmapIndex P map (map.table i).k) i

/-- The entry `i` is the first of `k` on the chain of its home bucket. -/
structure IntMap.Finds (P : IntMapParams) (map : IntMap) (k i : Nat) : Prop where
  path : Linked (upTo map.next (intmapStops map k)) (intmapIndex P map k) i
  used : (map.table i).used = true
  key : (map.table i).k = k

/-- The first entry of `k` holds `v`. -/
def IntMap.Answers (P : IntMapParams) (map : IntMap) (k v : Nat) : Prop :=
  ∃ i, map.Finds P k i ∧ (map.table i).v = v

/-- The entry `i` has the lowest index of those of `k`. -/
structure IntMap.Lowest (map : IntMap) (k i : Nat) : Prop where
  used : (map.table i).used = true
  key : (map.table i).k = k
  first : ∀ j < i, (map.table j).used = true → (map.table j).k ≠ k

section Finding

variable {P : IntMapParams} {map after : IntMap} {k v i j : Nat}

theorem intmapStops_unused (unused : (map.table i).used = false) : intmapStops map k i = true := by
  simp [intmapStops, unused]

theorem IntMap.Finds.stops (finds : map.Finds P k i) : intmapStops map k i = true :=
  (intmapStops_iff finds.used).mpr finds.key

theorem IntMap.Finds.unique (finds : map.Finds P k i) (finds' : map.Finds P k j) : i = j :=
  ((finds'.path.last_of_stop finds'.stops finds.path).eq_of_last (upTo_stop finds.stops))

/-- **A get returns the first entry** of the key. -/
theorem intmapTryget_finds (threaded : map.Threaded) (finds : map.Finds P k i) :
    intmapTryget P map k = some (some (map.table i).v) := by
  have ends := threaded.walk_ends (intmapStops map k) (threaded.index_lt (P := P) k) (Nat.le_succ _)
  rw [intmapTryget, (follow_found_iff ends).mpr ⟨finds.path, finds.stops⟩]
  rfl

/-- What stands on a chain is in use, if the home bucket is. -/
theorem IntMap.Chained.used_of_path (chained : map.Chained P) {a b : Nat} (path : Linked map.next a b)
    (used : (map.table a).used = true) : (map.table b).used = true :=
  path.closed (P := fun x => (map.table x).used = true) (fun x y _ link => (chained.linked x y link).2)
    used

/-- **A key with an entry is found.** -/
theorem IntMap.Chained.finds (chained : map.Chained P) (inside : i < map.capTotal)
    (used : (map.table i).used = true) (key : (map.table i).k = k) : ∃ j, map.Finds P k j := by
  have ends := chained.threaded.walk_ends (intmapStops map k)
    (chained.threaded.index_lt (P := P) k) le_rfl
  have path := chained.homed i inside used
  rw [key] at path
  rcases walked : follow map.next (intmapStops map k) map.capTotal (intmapIndex P map k)
    with _ | _ | j
  · exact absurd walked ends
  · have passes := follow_eq_none walked i path
    rw [(intmapStops_iff used).mpr key] at passes
    cases passes
  · obtain ⟨found, stops⟩ := follow_found walked
    have homeUsed : (map.table (intmapIndex P map k)).used = true := by
      rcases path.cases with same | ⟨b, link, -⟩
      · rwa [same]
      · exact (chained.linked _ _ link).1
    have usedJ := chained.used_of_path found.of_upTo homeUsed
    exact ⟨j, found, usedJ, (intmapStops_iff usedJ).mp stops⟩

theorem IntMap.Chained.finds_lt (chained : map.Chained P) (finds : map.Finds P k i) :
    i < map.capTotal :=
  chained.threaded.linked_lt (chained.threaded.index_lt k) finds.path.of_upTo

/-- **A get returns the value of the first entry**, if the key has entries. -/
theorem IntMap.Chained.tryget_iff (chained : map.Chained P) (here : map.Answers P k v) {w : Nat} :
    intmapTryget P map k = some (some w) ↔ v = w := by
  obtain ⟨i, finds, rfl⟩ := here
  rw [intmapTryget_finds chained.threaded finds]
  simp

/-- A fresh map. -/
theorem intmapInit_chained (P : IntMapParams) {capTotal : Nat} (pos : 0 < capTotal)
    (noAutogrow : Bool) : (intmapInit P capTotal noAutogrow).Chained P where
  threaded := intmapInit_threaded P pos noAutogrow
  count := by simp [IntMap.usedEntries, intmapInit, IntMapEntry.zero]
  linked _ _ link := by cases link
  homed _ _ used := by cases used

end Finding

/-! ### Setting -/

section Setting

variable {P : IntMapParams} {map after : IntMap} {k v curr : Nat} {chain : Option Nat}

theorem IntMap.StoresAt.index (stores : map.StoresAt chain curr k v after) (key : Nat) :
    intmapIndex P after key = intmapIndex P map key := by
  rw [intmapIndex, intmapIndex, stores.cap]

/-- A new entry at the end of the chain of its home bucket keeps the map in order. -/
theorem IntMap.StoresAt.chained (chained : map.Chained P) (stores : map.StoresAt chain curr k v after)
    (chainUsed : ∀ i, chain = some i → (map.table i).used = true)
    (reached : Linked after.next (intmapIndex P map k) curr) : after.Chained P where
  threaded := stores.threaded chained.threaded
  count := by rw [stores.usecount, stores.card, chained.count]
  linked i j link := by
    have ne_curr : ∀ x, (map.table x).used = true → x ≠ curr := by
      rintro x used rfl
      rw [stores.free] at used
      cases used
    obtain ⟨other, old | ⟨last, rfl⟩⟩ := stores.new link
    · obtain ⟨usedI, usedJ⟩ := chained.linked i j old
      rw [stores.used i other, stores.used j (ne_curr j usedJ)]
      exact ⟨usedI, usedJ⟩
    · rw [stores.used i other, stores.entry]
      exact ⟨chainUsed i last, rfl⟩
  homed i inside used := by
    rw [stores.index]
    by_cases same : i = curr
    · subst same
      rw [stores.entry]
      exact reached
    · rw [stores.capTotal] at inside
      rw [stores.used i same] at used
      rw [stores.key i same]
      refine (chained.homed i inside used).mono fun x y link => stores.kept ?_ link
      rintro rfl
      have usedX := (chained.linked x y link).1
      rw [stores.free] at usedX
      cases usedX

/-- A set keeps the map in order. -/
theorem IntMap.Placed.chained {stored : Bool} (chained : map.Chained P)
    (placed : map.Placed P k v stored after) : after.Chained P := by
  cases placed with
  | full _ => exact chained
  | home stores => exact stores.chained chained (fun _ none_ => nomatch none_) (.refl _ _)
  | @behind _ last taken path stores =>
    have used := chained.used_of_path path taken
    refine stores.chained chained (fun i same => Option.some.inj same ▸ used) ?_
    have other : last ≠ intmapFreeScan map map.capTotal (intmapIndex P map k) := by
      intro same
      rw [same, stores.free] at used
      cases used
    refine Linked.push (path.mono fun x y link => stores.kept ?_ link) ?_
    · rintro rfl
      have usedX := (chained.linked _ _ link).1
      rw [stores.free] at usedX
      cases usedX
    · rw [stores.next last other, if_pos rfl]

/-- The entries that were found are found. -/
theorem IntMap.StoresAt.finds (chained : map.Chained P) (stores : map.StoresAt chain curr k v after)
    {key i : Nat} (finds : map.Finds P key i) : i ≠ curr ∧ after.Finds P key i := by
  have ne_curr : ∀ x, (map.table x).used = true → x ≠ curr := by
    rintro x used rfl
    rw [stores.free] at used
    cases used
  have other := ne_curr i finds.used
  refine ⟨other, ?_, ?_, ?_⟩
  · rw [stores.index]
    refine finds.path.mono fun x y link => ?_
    rw [upTo] at link
    split at link
    · cases link
    · next passes =>
      have used := (chained.linked x y link).1
      have notCurr := ne_curr x used
      have same : intmapStops after key x = intmapStops map key x := by
        rw [intmapStops, intmapStops, stores.used x notCurr, stores.key x notCurr]
      rw [upTo_pass (same.trans (Bool.eq_false_iff.mpr passes))]
      exact stores.kept notCurr link
  · rw [stores.used i other, finds.used]
  · rw [stores.key i other, finds.key]

/-- An entry that is found after a set is the new one, or its key had an entry before. -/
theorem IntMap.StoresAt.found_new (chained : map.Chained P) (stores : map.StoresAt chain curr k v after)
    (chained' : after.Chained P) {key i : Nat} (finds : after.Finds P key i) :
    (∃ j, map.Finds P key j) ∨ i = curr := by
  by_cases same : i = curr
  · exact Or.inr same
  · have inside : i < map.capTotal := by
      rw [← stores.capTotal]
      exact chained'.finds_lt finds
    have used : (map.table i).used = true := by rw [← stores.used i same, finds.used]
    have key : (map.table i).k = key := by rw [← stores.key i same, finds.key]
    exact Or.inl (chained.finds inside used key)

/-- **What is found after a set**: what was found before it, and the new value if nothing was. -/
theorem IntMap.StoresAt.answers (chained : map.Chained P) (stores : map.StoresAt chain curr k v after)
    (chained' : after.Chained P) (key w : Nat) : after.Answers P key w ↔
      map.Answers P key w ∨ (key = k ∧ w = v ∧ ∀ u, ¬ map.Answers P k u) := by
  constructor
  · rintro ⟨i, finds, rfl⟩
    by_cases old : ∃ j, map.Finds P key j
    · obtain ⟨j, findsJ⟩ := old
      obtain ⟨other, still⟩ := stores.finds chained findsJ
      obtain rfl := finds.unique still
      exact Or.inl ⟨i, findsJ, (stores.value i other).symm⟩
    · obtain rfl := (stores.found_new chained chained' finds).resolve_left old
      have sameKey : k = key := by
        have key := finds.key
        rwa [stores.entry] at key
      subst sameKey
      refine Or.inr ⟨rfl, by rw [stores.entry], ?_⟩
      rintro u ⟨j, findsJ, -⟩
      exact old ⟨j, findsJ⟩
  · rintro (⟨i, finds, rfl⟩ | ⟨rfl, rfl, absent⟩)
    · obtain ⟨other, still⟩ := stores.finds chained finds
      exact ⟨i, still, stores.value i other⟩
    · have inside : curr < after.capTotal := by
        rw [stores.capTotal]
        exact stores.inside
      have sameKey : (after.table curr).k = key := by rw [stores.entry]
      obtain ⟨i, finds⟩ := chained'.finds inside (by rw [stores.entry]) sameKey
      rcases stores.found_new chained chained' finds with ⟨j, findsJ⟩ | rfl
      · exact absurd ⟨j, findsJ, rfl⟩ (absent _)
      · exact ⟨i, finds, by rw [stores.entry]⟩

end Setting

/-! ### Growing -/

section Growing

variable {P : IntMapParams} {map : IntMap}

/-- The set grows the table first. -/
def IntMap.Grows (map : IntMap) : Prop := map.noAutogrow = false ∧ map.usecount = map.capTotal

/-- The copy after `n` rounds of the loop of `vd_intmap_check_grow`, if keys may repeat. -/
structure RebuiltUpTo (P : IntMapParams) (map : IntMap) (n : Nat) (newMap : IntMap) : Prop where
  chained : newMap.Chained P
  capTotal : newMap.capTotal = map.capTotal * 2
  usecount : newMap.usecount ≤ n
  noAutogrow : newMap.noAutogrow = map.noAutogrow
  answers : ∀ k v, newMap.Answers P k v ↔ ∃ i < n, map.Lowest k i ∧ (map.table i).v = v

/-- The entries of a full table are counted. -/
theorem IntMap.Chained.full (chained : map.Chained P)
    (all : ∀ i < map.capTotal, (map.table i).used = true) : map.usecount = map.capTotal :=
  chained.count.trans (IntMap.card_full all)

/-- A table that is not full stores. -/
theorem intmapPlace_stores (chained : map.Chained P) (room : map.usecount < map.capTotal) (k v : Nat) :
    ∃ after chain curr, intmapPlace P map k v = some (true, after) ∧ after.Chained P ∧
      map.StoresAt chain curr k v after := by
  obtain ⟨stored, after, stores, placed⟩ := intmapPlace_placed (P := P) chained.threaded k v
  have chained' := placed.chained chained
  cases placed with
  | full all => exact absurd (chained.full all) (Nat.ne_of_lt room)
  | home stored => exact ⟨after, _, _, stores, chained', stored⟩
  | behind _ _ stored => exact ⟨after, _, _, stores, chained', stored⟩

/-- The first entry of a key has the lowest index of those below it. -/
theorem IntMap.exists_lowest {k i : Nat} (used : (map.table i).used = true) (key : (map.table i).k = k) :
    ∃ j ≤ i, map.Lowest k j := by
  classical
  have some_ : ∃ j, (map.table j).used = true ∧ (map.table j).k = k := ⟨i, used, key⟩
  obtain ⟨usedJ, keyJ⟩ := Nat.find_spec some_
  refine ⟨Nat.find some_, Nat.find_min' some_ ⟨used, key⟩, usedJ, keyJ, fun j below usedJ keyJ => ?_⟩
  exact Nat.find_min some_ below ⟨usedJ, keyJ⟩

/-- One more entry copied: it is found afterwards if its key was not copied before. -/
theorem RebuiltUpTo.copyEntry {n : Nat} (inside : n < map.capTotal) {newMap : IntMap}
    (rebuilt : RebuiltUpTo P map n newMap) :
    ∃ after, intmapCopyEntry (intmapSetNested P 1) map newMap n = some after ∧
      RebuiltUpTo P map (n + 1) after := by
  have few := rebuilt.usecount
  unfold intmapCopyEntry
  by_cases used : (map.table n).used = true
  · have room : newMap.usecount < newMap.capTotal := by
      rw [rebuilt.capTotal]
      omega
    obtain ⟨after, chain, curr, placed, chained, stores⟩ :=
      intmapPlace_stores rebuilt.chained room (map.table n).k (map.table n).v
    rw [if_pos used, intmapSetNested_room 0 room, placed]
    refine ⟨after, rfl, chained, stores.capTotal.trans rebuilt.capTotal, ?_,
      stores.noAutogrow.trans rebuilt.noAutogrow, fun k v => ?_⟩
    · rw [stores.usecount]
      omega
    · rw [stores.answers rebuilt.chained chained, rebuilt.answers]
      constructor
      · rintro (⟨i, before, lowest⟩ | ⟨rfl, rfl, absent⟩)
        · exact ⟨i, by omega, lowest⟩
        · -- the lowest entry of the key is this one, for it was not copied before
          obtain ⟨i, upto, lowest⟩ := IntMap.exists_lowest used rfl
          rcases Nat.lt_or_eq_of_le upto with before | rfl
          · exact absurd ((rebuilt.answers _ _).mpr ⟨i, before, lowest, rfl⟩) (absent _)
          · exact ⟨i, by omega, lowest, rfl⟩
      · rintro ⟨i, before, lowest, value⟩
        rcases Nat.lt_succ_iff_lt_or_eq.mp before with earlier | rfl
        · exact Or.inl ⟨i, earlier, lowest, value⟩
        · refine Or.inr ⟨lowest.key.symm, value.symm, fun u here => ?_⟩
          obtain ⟨j, below, lowest', -⟩ := (rebuilt.answers _ _).mp here
          exact lowest.first j below lowest'.used (lowest'.key.trans lowest.key)
  · rw [if_neg used]
    refine ⟨newMap, rfl, rebuilt.chained, rebuilt.capTotal, by omega, rebuilt.noAutogrow, fun k v => ?_⟩
    rw [rebuilt.answers]
    constructor
    · rintro ⟨i, before, lowest⟩
      exact ⟨i, by omega, lowest⟩
    · rintro ⟨i, before, lowest, value⟩
      rcases Nat.lt_succ_iff_lt_or_eq.mp before with earlier | rfl
      · exact ⟨i, earlier, lowest, value⟩
      · exact absurd lowest.used used

/-- The whole copy loop. -/
theorem rebuildLoop (pos : 0 < map.capTotal) : ∀ n ≤ map.capTotal,
    ∃ newMap, (List.range n).foldlM (intmapCopyEntry (intmapSetNested P 1) map)
      (intmapInit P (map.capTotal * 2) map.noAutogrow) = some newMap ∧ RebuiltUpTo P map n newMap := by
  intro n within
  induction n with
  | zero =>
    refine ⟨_, rfl, intmapInit_chained P (by omega) _, rfl, le_rfl, rfl, fun k v => ?_⟩
    constructor
    · rintro ⟨i, finds, -⟩
      cases finds.used
    · rintro ⟨i, before, -⟩
      omega
  | succ n ih =>
    obtain ⟨newMap, ran, rebuilt⟩ := ih (by omega)
    obtain ⟨after, stepped, more⟩ := rebuilt.copyEntry (by omega)
    refine ⟨after, ?_, more⟩
    rw [List.range_succ, List.foldlM_append, ran]
    simp [stepped]

/-- The map that a set stores into, behind the growth check. -/
inductive IntMap.Checked (P : IntMapParams) (map : IntMap) : IntMap → Prop
  | same (stays : ¬ map.Grows) : Checked P map map
  | grown {grown : IntMap} (grows : map.Grows) (rebuilt : RebuiltUpTo P map map.capTotal grown) :
      Checked P map grown

/-- The growth check of `vd_intmap_set`. -/
def intmapChecked (P : IntMapParams) (map : IntMap) : Option IntMap :=
  if map.noAutogrow then some map
  else (intmapCheckGrowWith P (intmapSetNested P 1) map).map Prod.snd

theorem intmapSet_eq (P : IntMapParams) (map : IntMap) (k v : Nat) :
    intmapSet P map k v = (intmapChecked P map).bind fun checked => intmapPlace P checked k v := by
  unfold intmapSet intmapSetNested intmapChecked
  split
  · rfl
  · rw [Option.bind_map]
    rfl

/-- **The growth check** ends. -/
theorem intmapChecked_checked (pos : 0 < map.capTotal) :
    ∃ checked, intmapChecked P map = some checked ∧ map.Checked P checked := by
  unfold intmapChecked
  by_cases grows : map.Grows
  · obtain ⟨grown, ran, rebuilt⟩ := rebuildLoop (P := P) pos map.capTotal le_rfl
    refine ⟨grown, ?_, .grown grows rebuilt⟩
    rw [if_neg (by rw [grows.1]; exact Bool.false_ne_true), intmapCheckGrowWith,
      if_neg (not_not.mpr grows.2), ran]
    rfl
  · refine ⟨map, ?_, .same grows⟩
    split
    · rfl
    · next autogrow =>
      have room : map.usecount ≠ map.capTotal := fun full => grows ⟨by simpa using autogrow, full⟩
      rw [intmapCheckGrowWith, if_pos room]
      rfl

theorem IntMap.Checked.threaded {checked : IntMap} (threaded : map.Threaded)
    (check : map.Checked P checked) : checked.Threaded := by
  cases check with
  | same _ => exact threaded
  | grown _ rebuilt => exact rebuilt.chained.threaded

theorem IntMap.Checked.chained {checked : IntMap} (chained : map.Chained P)
    (check : map.Checked P checked) : checked.Chained P := by
  cases check with
  | same _ => exact chained
  | grown _ rebuilt => exact rebuilt.chained

/-- **`vd_intmap_set`**: the growth check, then the store. -/
theorem intmapSet_checked (threaded : map.Threaded) (k v : Nat) :
    ∃ checked stored after, map.Checked P checked ∧ intmapSet P map k v = some (stored, after) ∧
      checked.Placed P k v stored after := by
  have pos : 0 < map.capTotal := lt_of_lt_of_le threaded.cap_pos threaded.cap_le
  obtain ⟨checked, ran, check⟩ := intmapChecked_checked (P := P) pos
  obtain ⟨stored, after, set, placed⟩ := intmapPlace_placed (P := P) (check.threaded threaded) k v
  refine ⟨checked, stored, after, check, ?_, placed⟩
  rw [intmapSet_eq, ran]
  exact set

end Growing

/-! ### Overwriting -/

section Overwriting

variable {P : IntMapParams} {map after : IntMap} {k v : Nat}

/-- A call on a map without buckets divides by zero. -/
def IntMap.guarded {α : Type} (map : IntMap) (call : Option α) : Option α :=
  if map.cap = 0 then none else call

/-- One `vd_intmap_set` of a run. -/
def intmapSetStep (P : IntMapParams) (map : IntMap) (pair : Nat × Nat) : Option IntMap :=
  (map.guarded (intmapSet P map pair.1 pair.2)).map Prod.snd

/-- A get behind a set that returned 1 returns the value that was set. -/
def IntMap.Overwrites (P : IntMapParams) (map : IntMap) (pair : Nat × Nat) : Prop :=
  ∀ after, map.guarded (intmapSet P map pair.1 pair.2) = some (true, after) →
    intmapTryget P after pair.1 = some (some pair.2)

/-- The entry of `k` that is met first behind the growth check holds `v`, if there is one. -/
structure IntMap.Agrees (P : IntMapParams) (map : IntMap) (pair : Nat × Nat) : Prop where
  grown : map.Grows → ∀ i < map.capTotal, map.Lowest pair.1 i → (map.table i).v = pair.2
  stays : ¬ map.Grows → (∀ i < map.capTotal, (map.table i).used = true) ∨
    ∀ i, map.Finds P pair.1 i → (map.table i).v = pair.2

theorem IntMap.guarded_eq {α : Type} {call : Option α} (pos : 0 < map.cap) :
    map.guarded call = call := if_neg (Nat.ne_of_gt pos)

theorem IntMap.guarded_some {α : Type} {call : Option α} {result : α}
    (called : map.guarded call = some result) : map.cap ≠ 0 ∧ call = some result := by
  unfold IntMap.guarded at called
  split at called
  · cases called
  · next buckets => exact ⟨buckets, called⟩

/-- **The get behind a store** returns the new value, if the key had no other. -/
theorem IntMap.StoresAt.tryget_iff {chain : Option Nat} {curr : Nat} (chained : map.Chained P)
    (stores : map.StoresAt chain curr k v after) (chained' : after.Chained P) :
    intmapTryget P after k = some (some v) ↔ ∀ w, map.Answers P k w → w = v := by
  have inside : curr < after.capTotal := by
    rw [stores.capTotal]
    exact stores.inside
  obtain ⟨i, finds⟩ := chained'.finds (k := k) inside (by rw [stores.entry]) (by rw [stores.entry])
  have here : after.Answers P k (after.table i).v := ⟨i, finds, rfl⟩
  rw [chained'.tryget_iff here]
  constructor
  · rintro value w ⟨j, findsJ, rfl⟩
    obtain ⟨other, still⟩ := stores.finds chained findsJ
    obtain rfl := finds.unique still
    rw [← stores.value i other, value]
  · intro agree
    rcases (stores.answers chained chained' k _).mp here with old | ⟨-, value, -⟩
    · exact agree _ old
    · exact value

/-- When the get behind `vd_intmap_set` returns what was set, past the growth check. -/
theorem IntMap.Placed.tryget_iff {stored : Bool} (chained : map.Chained P)
    (placed : map.Placed P k v stored after) :
    (stored = true → intmapTryget P after k = some (some v)) ↔
      (∀ i < map.capTotal, (map.table i).used = true) ∨ ∀ w, map.Answers P k w → w = v := by
  have chained' := placed.chained chained
  have stores_iff : ∀ {chain curr}, map.StoresAt chain curr k v after →
      (intmapTryget P after k = some (some v) ↔
        (∀ i < map.capTotal, (map.table i).used = true) ∨ ∀ w, map.Answers P k w → w = v) := by
    intro chain curr stores
    rw [stores.tryget_iff chained chained']
    refine (or_iff_right fun all => ?_).symm
    have used := all curr stores.inside
    rw [stores.free] at used
    cases used
  cases placed with
  | full all => exact iff_of_true (fun stored => nomatch stored) (Or.inl all)
  | home stores => rw [← stores_iff stores, forall_prop_of_true rfl]
  | behind _ _ stores => rw [← stores_iff stores, forall_prop_of_true rfl]

/-- When one set overwrites. -/
theorem IntMap.Chained.overwrites_iff (chained : map.Chained P) (pair : Nat × Nat) :
    map.Overwrites P pair ↔ map.Agrees P pair := by
  obtain ⟨k, v⟩ := pair
  obtain ⟨checked, stored, after, check, set, placed⟩ :=
    intmapSet_checked (P := P) chained.threaded k v
  have called : map.Overwrites P (k, v) ↔ (stored = true → intmapTryget P after k = some (some v)) := by
    unfold IntMap.Overwrites
    rw [IntMap.guarded_eq chained.threaded.cap_pos, set]
    constructor
    · rintro overwrites rfl
      exact overwrites after rfl
    · intro returns last same
      obtain ⟨rfl, rfl⟩ := Prod.mk.inj (Option.some.inj same)
      exact returns rfl
  rw [called, placed.tryget_iff (check.chained chained)]
  cases check with
  | same stays =>
    constructor
    · intro agree
      refine ⟨fun grows => absurd grows stays, fun _ => agree.imp_right fun same i finds => ?_⟩
      exact same _ ⟨i, finds, rfl⟩
    · intro agree
      refine (agree.stays stays).imp_right ?_
      rintro same w ⟨i, finds, rfl⟩
      exact same i finds
  | grown grows rebuilt =>
    have free : ¬ ∀ i < checked.capTotal, (checked.table i).used = true := by
      intro all
      have counted := rebuilt.chained.full all
      have few := rebuilt.usecount
      have twice := rebuilt.capTotal
      have pos : 0 < map.capTotal := lt_of_lt_of_le chained.threaded.cap_pos chained.threaded.cap_le
      omega
    rw [or_iff_right free]
    constructor
    · intro agree
      refine ⟨fun _ i inside lowest => ?_, fun stays => absurd grows stays⟩
      exact agree _ ((rebuilt.answers _ _).mpr ⟨i, inside, lowest, rfl⟩)
    · intro agree w here
      obtain ⟨i, inside, lowest, rfl⟩ := (rebuilt.answers _ _).mp here
      exact agree.grown grows i inside lowest

/-- A set keeps the map in order. -/
theorem IntMap.Chained.step (chained : map.Chained P) (pair : Nat × Nat)
    (stepped : intmapSetStep P map pair = some after) : after.Chained P := by
  obtain ⟨checked, stored, final, check, set, placed⟩ :=
    intmapSet_checked (P := P) chained.threaded pair.1 pair.2
  rw [intmapSetStep, IntMap.guarded_eq chained.threaded.cap_pos, set] at stepped
  obtain rfl := Option.some.inj stepped
  exact placed.chained (check.chained chained)

/-- **When setting overwrites.** In a run of sets, from any capacity and with keys repeated or not, every
set that returns 1 is followed by a get of its value exactly if none of them finds another value for its
key, in the entry that a get meets first behind the growth check. -/
theorem intmapSet_overwrites_iff (P : IntMapParams) (capTotal : Nat) (noAutogrow : Bool)
    (pairs : List (Nat × Nat)) :
    Along (intmapSetStep P) (IntMap.Overwrites P) (intmapInit P capTotal noAutogrow) pairs ↔
      Along (intmapSetStep P) (IntMap.Agrees P) (intmapInit P capTotal noAutogrow) pairs := by
  refine along_congr (I := fun map => map.Chained P ∨ (map.cap = 0 ∧ map.capTotal = 0)) ?_ ?_ ?_
  · rintro map pair - (chained | ⟨buckets, empty⟩)
    · exact chained.overwrites_iff pair
    · refine iff_of_true (fun after called => absurd buckets (IntMap.guarded_some called).1) ⟨?_, ?_⟩
      · rintro - i inside
        rw [empty] at inside
        cases inside
      · refine fun _ => Or.inl fun i inside => ?_
        rw [empty] at inside
        cases inside
  · rintro map pair - after (chained | ⟨buckets, -⟩) - stepped
    · exact Or.inl (chained.step pair stepped)
    · rw [intmapSetStep, IntMap.guarded, if_pos buckets] at stepped
      cases stepped
  · rcases Nat.eq_zero_or_pos capTotal with rfl | pos
    · exact Or.inr ⟨Nat.le_zero.mp (P.reducedCap_le 0), rfl⟩
    · exact Or.inl (intmapInit_chained P pos noAutogrow)

/-- A key that is set again keeps the value that it had. -/
theorem intmapSet_keeps_first :
    ¬ Along (intmapSetStep oneBucket) (IntMap.Overwrites oneBucket) (intmapInit oneBucket 4 false)
      [(7, 1), (7, 2)] := by
  rintro ⟨-, later⟩
  have second := (later _ rfl).1 _ rfl
  exact absurd second (by decide)

end Overwriting

end Vaudou
