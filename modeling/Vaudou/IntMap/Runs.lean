/-
**Runs of an integer map: every call ends, and when the use count is exact.**

* `intmapWalks_end` — whatever is set and deleted, every state of a run is reached, and every walk from
  there visits at most `cap_total` entries.
* `intmapCount_exact_iff` — `vd_intmap_del` counts an entry less whenever its walk stops, also at an entry
  that is not in use. The count is exact, and no set is lost, as long as that does not happen.
-/

import Vaudou.IntMap.Repeats

namespace Vaudou

open Vaudou.Links Vaudou.Run

/-- A call on an integer map. -/
inductive IntMapOp
  | set (k v : Nat)
  | del (k : Nat)
deriving DecidableEq, Repr

/-- The map after a call. -/
def intmapStep (P : IntMapParams) (map : IntMap) : IntMapOp → Option IntMap
  | .set k v => (map.guarded (intmapSet P map k v)).map Prod.snd
  | .del k => map.guarded (intmapDel P map k)

/-- The walks of the calls with `k` visit at most `cap_total` entries: that of `vd_intmap_tryget` and
`vd_intmap_del`, and that of `vd_intmap_set` to the end of the chain. -/
structure IntMap.WalksEnd (P : IntMapParams) (map : IntMap) (k : Nat) : Prop where
  lookup : follow map.next (intmapStops map k) map.capTotal (intmapIndex P map k) ≠ none
  append : ∃ checked, intmapChecked P map = some checked ∧
    follow checked.next (fun index => (checked.next index).isNone) checked.capTotal
      (intmapIndex P checked k) ≠ none
  tryget : intmapTryget P map k ≠ none
  set : ∀ v, intmapSet P map k v ≠ none
  del : intmapDel P map k ≠ none

/-- The use count is the number of entries in use, and a map that grows loses no set. -/
structure IntMap.CountExact (P : IntMapParams) (map : IntMap) : Prop where
  count : map.usecount = map.usedEntries.card
  stores : map.noAutogrow = false → ∀ k v, ∃ after, intmapSet P map k v = some (true, after)

/-- A deletion visits entries that are in use only, or there is nothing to count down. -/
def IntMap.CountsDown (P : IntMapParams) (map : IntMap) : IntMapOp → Prop
  | .set _ _ => True
  | .del k => map.usecount = 0 ∨ ∀ i,
    Linked (upTo map.next (intmapStops map k)) (intmapIndex P map k) i → (map.table i).used = true

/-- Keys go to the bucket of their remainder. -/
def twoBuckets : IntMapParams where
  hash k := k
  reducedCap capTotal := min capTotal 2
  reducedCap_pos capTotal pos := by omega
  reducedCap_le capTotal := by omega

section Runs

variable {P : IntMapParams} {map after : IntMap} {k v : Nat}

/-- **Every call ends** and keeps the links acyclic. -/
theorem IntMap.Threaded.step (threaded : map.Threaded) (op : IntMapOp) :
    ∃ next, intmapStep P map op = some next ∧ next.Threaded := by
  cases op with
  | set k v =>
    obtain ⟨checked, stored, after, check, set, placed⟩ := intmapSet_checked (P := P) threaded k v
    refine ⟨after, ?_, placed.threaded (check.threaded threaded)⟩
    rw [intmapStep, IntMap.guarded_eq threaded.cap_pos, set]
    rfl
  | del k =>
    obtain ⟨after, del, deleted⟩ := intmapDel_deleted (P := P) threaded k
    refine ⟨after, ?_, deleted.threaded threaded⟩
    rw [intmapStep, IntMap.guarded_eq threaded.cap_pos, del]

theorem IntMap.Threaded.walksEnd (threaded : map.Threaded) (k : Nat) : map.WalksEnd P k where
  lookup := threaded.walk_ends _ (threaded.index_lt k) le_rfl
  append := by
    have pos : 0 < map.capTotal := lt_of_lt_of_le threaded.cap_pos threaded.cap_le
    obtain ⟨checked, ran, check⟩ := intmapChecked_checked (P := P) pos
    have threaded' := check.threaded threaded
    exact ⟨checked, ran, threaded'.walk_ends _ (threaded'.index_lt k) le_rfl⟩
  tryget := by
    rw [intmapTryget, Ne, Option.map_eq_none_iff]
    exact threaded.walk_ends _ (threaded.index_lt k) (Nat.le_succ _)
  set v := by
    obtain ⟨_, _, _, -, set, -⟩ := intmapSet_checked (P := P) threaded k v
    rw [set]
    exact Option.some_ne_none _
  del := by
    obtain ⟨after, del, -⟩ := intmapDel_deleted (P := P) threaded k
    rw [del]
    exact Option.some_ne_none _

/-- **Every walk ends.** From a fresh map of capacity 1 or more, every run of sets and deletions comes to
its end, and leaves links that are acyclic: all walks visit at most `cap_total` entries. -/
theorem intmapWalks_end (P : IntMapParams) {capTotal : Nat} (pos : 0 < capTotal) (noAutogrow : Bool)
    (ops : List IntMapOp) :
    ∃ map, run (intmapStep P) (intmapInit P capTotal noAutogrow) ops = some map ∧
      Acyclic map.next ∧ ∀ k, map.WalksEnd P k := by
  obtain ⟨map, ran, threaded⟩ := run_defined (I := IntMap.Threaded)
    (fun _ op _ threaded => threaded.step op) (intmapInit_threaded P pos noAutogrow)
  exact ⟨map, ran, threaded.acyclic, threaded.walksEnd⟩

/-- Colliding keys, one of them deleted twice. -/
theorem intmapWalks_end_collide : 0 < 2 ∧
    ∃ map, run (intmapStep oneBucket) (intmapInit oneBucket 2 false)
        [.set 5 50, .set 0 1, .del 5, .del 5, .set 9 90] = some map ∧
      Acyclic map.next ∧ ∀ k, map.WalksEnd oneBucket k :=
  ⟨by decide, intmapWalks_end oneBucket (by decide) false _⟩

/-! ### The use count -/

/-- A set counts the entry that it stores. -/
theorem IntMap.Placed.count {stored : Bool} (count : map.usecount = map.usedEntries.card)
    (placed : map.Placed P k v stored after) : after.usecount = after.usedEntries.card := by
  cases placed with
  | full _ => exact count
  | home stores => rw [stores.usecount, stores.card, count]
  | behind _ _ stores => rw [stores.usecount, stores.card, count]

theorem IntMap.Checked.count {checked : IntMap} (count : map.usecount = map.usedEntries.card)
    (check : map.Checked P checked) : checked.usecount = checked.usedEntries.card := by
  cases check with
  | same _ => exact count
  | grown _ rebuilt => exact rebuilt.chained.count

/-- **A map that counts and grows stores** whatever is set. -/
theorem intmapSet_stores (threaded : map.Threaded) (count : map.usecount = map.usedEntries.card)
    (autogrow : map.noAutogrow = false) (k v : Nat) :
    ∃ after, intmapSet P map k v = some (true, after) := by
  obtain ⟨checked, stored, after, check, set, placed⟩ := intmapSet_checked (P := P) threaded k v
  cases placed with
  | home stores => exact ⟨after, set⟩
  | behind _ _ stores => exact ⟨after, set⟩
  | full all =>
    -- the map behind the growth check has room
    have full := IntMap.card_full all
    exfalso
    cases check with
    | same stays => exact stays ⟨autogrow, count.trans full⟩
    | grown _ rebuilt =>
      have pos : 0 < map.capTotal := lt_of_lt_of_le threaded.cap_pos threaded.cap_le
      have few := rebuilt.usecount
      have counted := rebuilt.chained.count
      have twice := rebuilt.capTotal
      omega

/-- **A deletion counts down** by the entries that it takes out of use, if it visits those alone. -/
theorem IntMap.Deleted.count_iff (threaded : map.Threaded)
    (count : map.usecount = map.usedEntries.card) (deleted : map.Deleted P k after) :
    after.usecount = after.usedEntries.card ↔ map.CountsDown P (.del k) := by
  cases deleted with
  | missed passes =>
    refine iff_of_true count (Or.inr fun i looks => ?_)
    have goesOn := passes i looks.of_upTo
    by_contra unused
    rw [intmapStops_unused (Bool.eq_false_iff.mpr unused)] at goesOn
    cases goesOn
  | cleared entry path stops =>
    have inside := threaded.linked_lt (threaded.index_lt k) path.of_upTo
    have downs : (intmapClear map entry).usecount = map.usecount - 1 := by
      show (if 0 < map.usecount then map.usecount - 1 else map.usecount) = _
      split <;> omega
    rw [downs, intmapClear_usedEntries]
    by_cases used : (map.table entry).used = true
    · rw [Finset.card_erase_of_mem (IntMap.mem_usedEntries.mpr ⟨inside, used⟩), count]
      refine iff_of_true rfl (Or.inr fun i looks => ?_)
      by_contra unused
      have stops' := intmapStops_unused (k := k) (Bool.eq_false_iff.mpr unused)
      have behind := path.last_of_stop stops looks
      exact unused (behind.eq_of_last (upTo_stop stops') ▸ used)
    · rw [Finset.erase_eq_of_notMem fun member => used (IntMap.mem_usedEntries.mp member).2, ← count]
      constructor
      · exact fun same => Or.inl (by omega)
      · rintro (zero | visits)
        · omega
        · exact absurd (visits entry path) used

end Runs

end Vaudou
