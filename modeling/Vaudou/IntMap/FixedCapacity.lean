/-
**Maps that do not grow.**

With `VD_INTMAP_FLAG_NO_AUTOGROW` the table keeps its `cap_total` entries. Entries that overflow are taken
from the whole table, so no key is refused while an entry is left, however the keys collide:

* `intmapPlace_full` — a full table refuses a key and is left as it is.
* **`intmapFixed_fills`** — of pairwise distinct keys, in any order, exactly the first `cap_total` are
  taken and found again, and the others are refused and not found.
-/

import Vaudou.IntMap.Growth
import Vaudou.IntMap.Walks

namespace Vaudou

open Vaudou.Links

section Fixed

variable {P : IntMapParams} {map : IntMap} {k v : Nat}

/-- All entries of a full table are in use. -/
theorem IntMap.Sound.all_used (sound : map.Sound P) (full : map.usecount = map.capTotal) :
    ∀ i < map.capTotal, (map.table i).used = true :=
  IntMap.all_used (by rw [sound.count, full])

/-- **A full table refuses a key** and is left as it is. -/
theorem intmapPlace_full (sound : map.Sound P) (full : map.usecount = map.capTotal) (k v : Nat) :
    intmapPlace P map k v = some (false, map) := by
  have all := sound.all_used full
  have home := intmapIndex_lt sound k
  unfold intmapPlace
  rw [if_pos (all _ home), if_pos (all _ (intmapFreeScan_lt le_rfl home))]

/-- A key that a full table does not store is not found. -/
theorem intmapTryget_full (sound : map.Sound P) (full : map.usecount = map.capTotal)
    (absent : ∀ w, ¬ map.Holds k w) : intmapTryget P map k = some none := by
  obtain ⟨rank, climb⟩ := sound.climb
  have home := intmapIndex_lt sound k
  have taken := sound.all_used full _ home
  refine (intmapTryget_cases sound k).resolve_right ?_
  rintro ⟨v, found, -⟩
  obtain ⟨walk, walked, value⟩ := Option.map_eq_some_iff.mp found
  obtain ⟨i, rfl, -⟩ := Option.map_eq_some_iff.mp value
  obtain ⟨path, stops⟩ := follow_eq_some walked
  obtain ⟨inside, used⟩ := climb.stays path home taken
  exact absent _ ⟨i, inside, used, (intmapStops_iff used).mp stops, rfl⟩

/-- What the calls return: 1 for as many as there is room for, and 0 behind. -/
def roomAnswers (room : Nat) (pairs : List (Nat × Nat)) : List Bool :=
  (pairs.take room).map (fun _ => true) ++ (pairs.drop room).map fun _ => false

/-- **Distinct absent keys are taken while there is room.** The induction is over the keys that are left;
when the room is used up the map stays as it is. -/
theorem intmapSetAll_room : ∀ (pairs : List (Nat × Nat)) {map : IntMap} (room : Nat), map.Sound P →
    map.noAutogrow = true → map.usecount + room = map.capTotal → (pairs.map Prod.fst).Nodup →
    (∀ pair ∈ pairs, ∀ w, ¬ map.Holds pair.1 w) →
    ∃ after, intmapSetAll P map pairs = some (roomAnswers room pairs, after) ∧ after.Sound P ∧
      (room ≤ pairs.length → after.usecount = after.capTotal) ∧
      ∀ k v, after.Holds k v ↔ (k, v) ∈ pairs.take room ∨ map.Holds k v
  | [], map, room, sound, _, counted, _, _ => by
    refine ⟨map, by simp [roomAnswers, intmapSetAll], sound, fun none => ?_, by simp⟩
    rw [Nat.le_zero.mp none] at counted
    exact counted
  | (k, v) :: rest, map, 0, sound, fixed, counted, distinct, absent => by
    obtain ⟨after, ran, afterSound, full, holds⟩ :=
      intmapSetAll_room rest 0 sound fixed counted (List.nodup_cons.mp distinct).2
        fun pair member => absent pair (List.mem_cons_of_mem _ member)
    refine ⟨after, ?_, afterSound, fun _ => full (Nat.zero_le _), holds⟩
    have refused : intmapSet P map k v = some (false, map) := by
      rw [intmapSet, intmapSetNested, if_pos fixed, intmapPlace_full sound counted]
    simp only [intmapSetAll, refused, Option.bind_some, ran, Option.map_some]
    rfl
  | (k, v) :: rest, map, room + 1, sound, fixed, counted, distinct, absent => by
    obtain ⟨fresh, distinct⟩ := List.nodup_cons.mp distinct
    obtain ⟨placed, taken, placedSound, placedHolds, placedCount, placedCap, placedFlag⟩ :=
      intmapPlace_sound sound (by omega) (absent (k, v) List.mem_cons_self)
    have stillAbsent : ∀ pair ∈ rest, ∀ w, ¬ placed.Holds pair.1 w := by
      intro pair member w held
      rcases (placedHolds _ _).mp held with ⟨same, -⟩ | old
      · exact fresh (same ▸ List.mem_map_of_mem member)
      · exact absent pair (List.mem_cons_of_mem _ member) w old
    obtain ⟨after, ran, afterSound, full, holds⟩ := intmapSetAll_room rest room placedSound
      (placedFlag.trans fixed) (by omega) distinct stillAbsent
    refine ⟨after, ?_, afterSound, fun long => full (Nat.le_of_succ_le_succ long), fun k' v' => ?_⟩
    · have set : intmapSet P map k v = some (true, placed) := by
        rw [intmapSet, intmapSetNested, if_pos fixed, taken]
      simp only [intmapSetAll, set, Option.bind_some, ran, Option.map_some]
      rfl
    · rw [holds, placedHolds, List.take_succ_cons, List.mem_cons, Prod.mk.injEq]
      tauto

/-- **A map that does not grow takes exactly `cap_total` keys.** For every hash function and every
sequence of pairwise distinct keys, in any order: the first `cap_total` calls return 1 and their keys are
found with their values; every call behind them returns 0, and its key is not found. -/
theorem intmapFixed_fills (P : IntMapParams) {capTotal : Nat} (pos : 0 < capTotal)
    (pairs : List (Nat × Nat)) (distinct : (pairs.map Prod.fst).Nodup) :
    ∃ map, intmapSetAll P (intmapInit P capTotal true) pairs = some (roomAnswers capTotal pairs, map) ∧
      (∀ pair ∈ pairs.take capTotal, intmapTryget P map pair.1 = some (some pair.2)) ∧
      ∀ pair ∈ pairs.drop capTotal, intmapTryget P map pair.1 = some none := by
  obtain ⟨map, ran, sound, full, holds⟩ := intmapSetAll_room (P := P) pairs capTotal
    (intmapInit_sound P pos true) rfl (Nat.zero_add _) distinct fun _ _ _ => intmapInit_holds
  refine ⟨map, ran, fun pair member => ?_, fun pair member => ?_⟩
  · exact intmapTryget_holds sound ((holds _ _).mpr (Or.inl member))
  · have long : capTotal ≤ pairs.length := by
      by_contra short
      rw [List.drop_eq_nil_of_le (by omega)] at member
      cases member
    refine intmapTryget_full sound (full long) fun w held => ?_
    rcases (holds _ _).mp held with early | initial
    · -- a key of the second part is not one of the first
      rw [← List.take_append_drop capTotal pairs, List.map_append] at distinct
      exact List.disjoint_of_nodup_append distinct (List.mem_map.mpr ⟨(pair.1, w), early, rfl⟩)
        (List.mem_map.mpr ⟨pair, member, rfl⟩)
    · exact intmapInit_holds initial

/-- Two entries for three keys in one bucket. -/
theorem intmapFixed_fills_collide : ∃ map,
    intmapSetAll oneBucket (intmapInit oneBucket 2 true) [(5, 50), (0, 1), (9, 90)] =
      some ([true, true, false], map) ∧
    (∀ pair ∈ [(5, 50), (0, 1)], intmapTryget oneBucket map pair.1 = some (some pair.2)) ∧
    ∀ pair ∈ [(9, 90)], intmapTryget oneBucket map pair.1 = some none :=
  intmapFixed_fills oneBucket (by decide) [(5, 50), (0, 1), (9, 90)] (by decide)

end Fixed

end Vaudou
