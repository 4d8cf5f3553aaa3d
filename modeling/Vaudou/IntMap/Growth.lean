/-
**Growth of the integer map, and what a sequence of insertions leaves.**

A full map is copied entry by entry into one of twice the size, and the copy is made with
`vd_intmap_set` itself. The copy stores every pair of the old map and no other
(`intmapCheckGrow_full`), so `vd_intmap_set` on an absent key with autogrow always returns 1 and adds
exactly its pair (`intmapSet_absent`).

`intmapSetAll_tryget`: after any sequence of insertions under distinct keys every call has
returned 1 and every inserted key is found with its value, whatever the hash function.
-/

import Vaudou.IntMap.Chains
import Mathlib.Data.List.Nodup

namespace Vaudou

open Vaudou.Links

variable {P : IntMapParams} {map : IntMap}

/-! ### The copy -/

/-- A call on a map with room does not grow it. -/
theorem intmapSetNested_room (depth : Nat) (room : map.usecount < map.capTotal) (k v : Nat) :
    intmapSetNested P (depth + 1) map k v = intmapPlace P map k v := by
  unfold intmapSetNested
  split
  · rfl
  · rw [intmapCheckGrowWith, if_pos (Nat.ne_of_lt room)]
    rfl

/-- The copy after `n` rounds of the loop of `vd_intmap_check_grow`. -/
structure CopiedUpTo (P : IntMapParams) (map : IntMap) (n : Nat) (newMap : IntMap) : Prop where
  sound : newMap.Sound P
  capTotal : newMap.capTotal = map.capTotal * 2
  usecount : newMap.usecount ≤ n
  noAutogrow : newMap.noAutogrow = map.noAutogrow
  holds : ∀ k v, newMap.Holds k v ↔
    ∃ i < n, (map.table i).used = true ∧ (map.table i).k = k ∧ (map.table i).v = v

/-- One more entry copied. -/
theorem CopiedUpTo.copyEntry (sound : map.Sound P) {n : Nat} (inside : n < map.capTotal)
    {newMap : IntMap} (copied : CopiedUpTo P map n newMap) :
    ∃ after, intmapCopyEntry (intmapSetNested P 1) map newMap n = some after ∧
      CopiedUpTo P map (n + 1) after := by
  unfold intmapCopyEntry
  by_cases used : (map.table n).used = true
  · have absent : ∀ w, ¬ newMap.Holds (map.table n).k w := by
      intro w holds
      obtain ⟨i, before, iUsed, sameKey, -⟩ := (copied.holds _ _).mp holds
      have same := sound.distinct i n (by omega) inside iUsed used sameKey
      omega
    have room : newMap.usecount < newMap.capTotal := by
      rw [copied.capTotal]
      have := copied.usecount
      omega
    obtain ⟨after, stored, afterSound, holds, usecount, capTotal, noAutogrow⟩ :=
      intmapPlace_sound copied.sound room (v := (map.table n).v) absent
    rw [if_pos used, intmapSetNested_room 0 room, stored]
    refine ⟨after, rfl, afterSound, capTotal.trans copied.capTotal, ?_,
      noAutogrow.trans copied.noAutogrow, ?_⟩
    · have := copied.usecount
      omega
    · intro k v
      rw [holds, copied.holds]
      constructor
      · rintro (⟨rfl, rfl⟩ | ⟨i, before, rest⟩)
        · exact ⟨n, by omega, used, rfl, rfl⟩
        · exact ⟨i, by omega, rest⟩
      · rintro ⟨i, before, iUsed, key, value⟩
        rcases Nat.lt_succ_iff_lt_or_eq.mp before with earlier | rfl
        · exact Or.inr ⟨i, earlier, iUsed, key, value⟩
        · exact Or.inl ⟨key.symm, value.symm⟩
  · rw [if_neg used]
    refine ⟨newMap, rfl, copied.sound, copied.capTotal, ?_, copied.noAutogrow, ?_⟩
    · have := copied.usecount
      omega
    · intro k v
      rw [copied.holds]
      constructor
      · rintro ⟨i, before, rest⟩
        exact ⟨i, by omega, rest⟩
      · rintro ⟨i, before, iUsed, rest⟩
        rcases Nat.lt_succ_iff_lt_or_eq.mp before with earlier | rfl
        · exact ⟨i, earlier, iUsed, rest⟩
        · exact absurd iUsed used

/-- The whole copy loop. -/
theorem copyLoop (sound : map.Sound P) :
    ∀ n ≤ map.capTotal, ∃ newMap, (List.range n).foldlM (intmapCopyEntry (intmapSetNested P 1) map)
      (intmapInit P (map.capTotal * 2) map.noAutogrow) = some newMap ∧ CopiedUpTo P map n newMap := by
  intro n within
  induction n with
  | zero =>
    have pos : 0 < map.capTotal := lt_of_lt_of_le sound.cap_pos sound.cap_le
    refine ⟨_, rfl, intmapInit_sound P (by omega) _, rfl, le_rfl, rfl, ?_⟩
    intro k v
    constructor
    · exact fun holds => absurd holds intmapInit_holds
    · rintro ⟨i, before, -⟩
      omega
  | succ n ih =>
    obtain ⟨newMap, ran, copied⟩ := ih (by omega)
    obtain ⟨after, stepped, copiedMore⟩ := copied.copyEntry sound (by omega)
    refine ⟨after, ?_, copiedMore⟩
    rw [List.range_succ, List.foldlM_append, ran]
    simp [stepped]

/-- **`vd_intmap_check_grow` on a full map**: the grown map stores the same pairs and has room. -/
theorem intmapCheckGrow_full (sound : map.Sound P) (full : map.usecount = map.capTotal) :
    ∃ grown, intmapCheckGrowWith P (intmapSetNested P 1) map = some (true, grown) ∧
      grown.Sound P ∧ grown.usecount < grown.capTotal ∧ grown.noAutogrow = map.noAutogrow ∧
      ∀ k v, grown.Holds k v ↔ map.Holds k v := by
  obtain ⟨grown, ran, copied⟩ := copyLoop sound map.capTotal le_rfl
  have pos : 0 < map.capTotal := lt_of_lt_of_le sound.cap_pos sound.cap_le
  refine ⟨grown, ?_, copied.sound, ?_, copied.noAutogrow, copied.holds⟩
  · rw [intmapCheckGrowWith, if_neg (by rw [full]; exact fun differ => differ rfl), ran]
    rfl
  · have := copied.usecount
    rw [copied.capTotal]
    omega

/-! ### Insertion -/

/-- **`vd_intmap_set` on an absent key, with autogrow.** -/
theorem intmapSet_absent (sound : map.Sound P) (autogrow : map.noAutogrow = false) {k v : Nat}
    (absent : ∀ w, ¬ map.Holds k w) :
    ∃ after, intmapSet P map k v = some (true, after) ∧ after.Sound P ∧
      after.noAutogrow = false ∧
      ∀ k' v', after.Holds k' v' ↔ (k' = k ∧ v' = v) ∨ map.Holds k' v' := by
  by_cases room : map.usecount < map.capTotal
  · obtain ⟨after, stored, afterSound, holds, -, -, noAutogrow⟩ :=
      intmapPlace_sound sound room (v := v) absent
    refine ⟨after, ?_, afterSound, noAutogrow.trans autogrow, holds⟩
    rw [intmapSet, intmapSetNested_room 1 room, stored]
  · have full : map.usecount = map.capTotal :=
      le_antisymm sound.usecount_le (Nat.le_of_not_lt room)
    obtain ⟨grown, grew, grownSound, grownRoom, grownFlag, same⟩ := intmapCheckGrow_full sound full
    obtain ⟨after, stored, afterSound, holds, -, -, noAutogrow⟩ :=
      intmapPlace_sound grownSound grownRoom (k := k) (v := v)
        fun w held => absent w ((same k w).mp held)
    refine ⟨after, ?_, afterSound, noAutogrow.trans (grownFlag.trans autogrow), ?_⟩
    · rw [intmapSet, intmapSetNested, if_neg (by rw [autogrow]; exact Bool.false_ne_true), grew]
      exact stored
    · intro k' v'
      rw [holds, same]

/-- A sequence of `vd_intmap_set` calls, with what each returned. -/
def intmapSetAll (P : IntMapParams) (map : IntMap) : List (Nat × Nat) → Option (List Bool × IntMap)
  | [] => some ([], map)
  | (k, v) :: rest =>
    (intmapSet P map k v).bind fun placed =>
      (intmapSetAll P placed.2 rest).map fun later => (placed.1 :: later.1, later.2)

/-- Insertions under distinct absent keys all return 1 and add exactly their pairs. -/
theorem intmapSetAll_absent : ∀ (pairs : List (Nat × Nat)) {map : IntMap}, map.Sound P →
    map.noAutogrow = false → (pairs.map Prod.fst).Nodup →
    (∀ pair ∈ pairs, ∀ w, ¬ map.Holds pair.1 w) →
    ∃ after, intmapSetAll P map pairs = some (pairs.map fun _ => true, after) ∧ after.Sound P ∧
      ∀ k v, after.Holds k v ↔ (k, v) ∈ pairs ∨ map.Holds k v
  | [], map, sound, _, _, _ => ⟨map, rfl, sound, by simp⟩
  | (k, v) :: rest, map, sound, autogrow, distinct, absent => by
    rw [List.map_cons, List.nodup_cons] at distinct
    obtain ⟨placed, set, placedSound, placedFlag, holds⟩ :=
      intmapSet_absent sound autogrow (v := v) (absent (k, v) List.mem_cons_self)
    have stillAbsent : ∀ pair ∈ rest, ∀ w, ¬ placed.Holds pair.1 w := by
      intro pair member w held
      rcases (holds _ _).mp held with ⟨same, -⟩ | old
      · exact distinct.1 (same ▸ List.mem_map_of_mem member)
      · exact absent pair (List.mem_cons_of_mem _ member) w old
    obtain ⟨after, ran, afterSound, afterHolds⟩ :=
      intmapSetAll_absent rest placedSound placedFlag distinct.2 stillAbsent
    refine ⟨after, ?_, afterSound, ?_⟩
    · simp [intmapSetAll, set, ran]
    · intro k' v'
      rw [afterHolds, holds, List.mem_cons, Prod.mk.injEq]
      tauto

/-- **Every inserted key is kept.** From any capacity of at least 1 with autogrow, after insertions
under distinct keys every call returned 1 and every key is found with its value, for every hash
function and through every growth. -/
theorem intmapSetAll_tryget (P : IntMapParams) (capTotal : Nat) (pos : 0 < capTotal)
    (pairs : List (Nat × Nat)) (distinct : (pairs.map Prod.fst).Nodup) :
    ∃ map, intmapSetAll P (intmapInit P capTotal false) pairs =
        some (pairs.map fun _ => true, map) ∧
      ∀ pair ∈ pairs, intmapTryget P map pair.1 = some (some pair.2) := by
  obtain ⟨map, ran, sound, holds⟩ := intmapSetAll_absent (P := P) pairs
    (intmapInit_sound P pos false) rfl distinct fun _ _ _ => intmapInit_holds
  refine ⟨map, ran, fun pair member => ?_⟩
  exact intmapTryget_holds sound ((holds pair.1 pair.2).mpr (Or.inl member))

/-- One bucket for every key. -/
def oneBucket : IntMapParams where
  hash _ := 0
  reducedCap capTotal := min capTotal 1
  reducedCap_pos capTotal pos := by omega
  reducedCap_le capTotal := by omega

/-- Three colliding keys through two growths of a map of capacity 1. -/
theorem intmapSetAll_tryget_collide :
    ([(5, 50), (0, 1), (9, 90)].map Prod.fst).Nodup ∧
      ∃ map, intmapSetAll oneBucket (intmapInit oneBucket 1 false) [(5, 50), (0, 1), (9, 90)] =
          some ([true, true, true], map) ∧
        ∀ pair ∈ [(5, 50), (0, 1), (9, 90)], intmapTryget oneBucket map pair.1 =
          some (some pair.2) :=
  ⟨by decide, intmapSetAll_tryget oneBucket 1 (by decide) [(5, 50), (0, 1), (9, 90)] (by decide)⟩

end Vaudou
