/-
**The bins that a string map looks at.**

`touchedBins` are the bins that `vd__strmap_get_bin` reads or writes: the home bin and those on its chain,
and for a key that is to be created while its home bin is taken those of the search from the end of the
table, which starts at the bin behind the table and leaves out the first one.

* `strmapGetBin_frame` — no other bin is changed.
* `strmapRun_in_table_iff` — the map stays in its table, and refuses no key while it has room, in exactly
  the runs without such a search.
-/

import Vaudou.StrMap.Tails

namespace Vaudou

open Vaudou.Memory Vaudou.Links Vaudou.Run

/-- A call on a string map. -/
inductive StrMapOp
  | set (key value : List UInt8)
  | get (key : List UInt8)
  | del (key : List UInt8)
deriving DecidableEq, Repr

def StrMapOp.key : StrMapOp → List UInt8
  | .set key _ => key
  | .get key => key
  | .del key => key

/-- The flag `VD__GET_BIN_FLAGS_CREATE` of the call. -/
def StrMapOp.creates : StrMapOp → Bool
  | .set _ _ => true
  | .get _ => false
  | .del _ => false

/-- The map after a call. -/
def strmapOpStep (A : BlockAlloc) (s : StrMapState) : StrMapOp → Option StrMapState
  | .set key value => (strmapSet A s key value).map Prod.fst
  | .get key => (strmapGet A s key).map fun _ => s
  | .del key => (strmapDel A s key).map Prod.fst

/-- The bins that the search for a free one reads, from `cursor` down. -/
def scannedBins (map : StrMap) : (cursor : Nat) → List Nat
  | 0 => []
  | cursor + 1 =>
    (cursor + 1) :: if (map.bins (cursor + 1)).used then scannedBins map cursor else []

/-- The bins that the walk of a search reads. -/
def walkedBins (s : StrMapState) (key : List UInt8) : List Nat :=
  if (s.map.bins (s.map.home key)).used then
    visited s.map.next (fun i => checkKey s.heap key (s.map.bins i)) (s.map.capTotal + 1)
      (s.map.home key)
  else []

/-- **The bins that `vd__strmap_get_bin` reads or writes.** A bin that is taken for the key is the home bin
or the last one that was scanned. -/
def touchedBins (s : StrMapState) (key : List UInt8) (create : Bool) : List Nat :=
  s.map.home key :: (walkedBins s key ++
    if create && (s.map.bins (s.map.home key)).used && findBin s key == some none then
      scannedBins s.map s.map.capTotal
    else [])

/-- The call stays in the table, and returns null for a key that is to be created only if all bins are in
use. -/
structure StrMapState.InTable (A : BlockAlloc) (s : StrMapState) (op : StrMapOp) : Prop where
  touched : ∀ i ∈ touchedBins s op.key op.creates, i < s.map.capTotal
  full : op.creates = true → ∀ s', strmapGetBin A s op.key true false = some (s', none) →
    ∀ i < s.map.capTotal, (s.map.bins i).used = true

/-- No set finds its home bin taken by another key. -/
def StrMapState.AtHome (s : StrMapState) : StrMapOp → Prop
  | .set key _ => (s.map.bins (s.map.home key)).used = false ∨
    checkKey s.heap key (s.map.bins (s.map.home key)) = true
  | _ => True

section Bins

variable {A : BlockAlloc} {s s' : StrMapState} {key : List UInt8} {op : StrMapOp}

/-- The bin that the search found free is one that it scanned. -/
theorem freeBin_scanned {map : StrMap} : ∀ {cursor : Nat}, freeBin map cursor ≠ 0 →
    freeBin map cursor ∈ scannedBins map cursor
  | 0, free => absurd rfl free
  | cursor + 1, free => by
    unfold freeBin at free ⊢
    unfold scannedBins
    split
    · next used =>
      rw [if_pos used] at free
      exact List.mem_cons_of_mem _ (freeBin_scanned free)
    · exact List.mem_cons_self

/-- A bin that was found is in use, and was walked to. -/
theorem findBin_walked {i : Nat} (found : findBin s key = some (some i)) : i ∈ walkedBins s key := by
  unfold findBin at found
  unfold walkedBins
  dsimp only at found
  split at found
  · next used =>
    rw [if_pos used]
    exact mem_visited found
  · cases Option.some.inj found

/-- **The bins that are not touched** stay as they are, and the bin that is returned is touched. -/
theorem strmapGetBin_frame {create setUnused : Bool} {result : Option Nat}
    (got : strmapGetBin A s key create setUnused = some (s', result)) :
    (∀ i ∉ touchedBins s key create, s'.map.bins i = s.map.bins i) ∧
      ∀ i, result = some i → i ∈ touchedBins s key create := by
  obtain ⟨search, searched, got⟩ := Option.bind_eq_some_iff.mp got
  -- a bin that is taken is touched
  have taken : ∀ {t : StrMapState} {b : Nat}, takeBin A s key b = some t →
      b ∈ touchedBins s key create →
      (∀ i ∉ touchedBins s key create, t.map.bins i = s.map.bins i) ∧
        ∀ i, some b = some i → i ∈ touchedBins s key create := by
    intro t b took touched
    refine ⟨fun i untouched => (takeBin_takes took).others i ?_, ?_⟩
    · rintro rfl
      exact untouched touched
    · rintro i same
      obtain rfl := Option.some.inj same
      exact touched
  cases search with
  | some i =>
    obtain ⟨rfl, rfl⟩ := Prod.mk.inj (Option.some.inj got)
    have touched : i ∈ touchedBins s key create :=
      List.mem_cons_of_mem _ (List.mem_append_left _ (findBin_walked searched))
    refine ⟨fun j untouched => ?_, fun j same => Option.some.inj same ▸ touched⟩
    split
    · refine Function.update_of_ne ?_ _ _
      rintro rfl
      exact untouched touched
    · rfl
  | none =>
    dsimp only at got
    split at got
    · obtain ⟨rfl, rfl⟩ := Prod.mk.inj (Option.some.inj got)
      exact ⟨fun _ _ => rfl, fun _ none_ => nomatch none_⟩
    · next creates =>
      split at got
      · obtain ⟨t, took, same⟩ := Option.map_eq_some_iff.mp got
        obtain ⟨rfl, rfl⟩ := Prod.mk.inj same
        exact taken took List.mem_cons_self
      · next used =>
        split at got
        · obtain ⟨rfl, rfl⟩ := Prod.mk.inj (Option.some.inj got)
          exact ⟨fun _ _ => rfl, fun _ none_ => nomatch none_⟩
        · next free =>
          obtain ⟨t, took, same⟩ := Option.map_eq_some_iff.mp got
          obtain ⟨rfl, rfl⟩ := Prod.mk.inj same
          refine taken took (List.mem_cons_of_mem _ (List.mem_append_right _ ?_))
          rw [if_pos (by simp [not_not.mp creates, not_not.mp used, searched])]
          exact freeBin_scanned free

/-- The walk of a search in a sound map ends at the home bin. -/
theorem walkedBins_sound (sound : s.Sound) (key : List UInt8) :
    ∀ i ∈ walkedBins s key, i = s.map.home key := by
  intro i walked
  unfold walkedBins at walked
  split at walked
  · rw [visited, sound.next _ (sound.home_lt key)] at walked
    simpa using walked
  · cases walked

/-- Without a search for a free bin, only the home bin is touched. -/
theorem StrMapState.Sound.unscanned (sound : s.Sound) {op : StrMapOp}
    (touched : touchedBins s op.key op.creates = s.map.home op.key :: (walkedBins s op.key ++ [])) :
    ∀ i ∈ touchedBins s op.key op.creates, i < s.map.capTotal := by
  have home := sound.home_lt op.key
  intro i member
  rw [touched, List.append_nil] at member
  rcases List.mem_cons.mp member with rfl | walked
  · exact home
  · rw [walkedBins_sound sound op.key i walked]
    exact home

/-- A search for a free bin starts behind the table. -/
theorem StrMapState.Sound.scanned (sound : s.Sound)
    (used : (s.map.bins (s.map.home key)).used = true)
    (other : checkKey s.heap key (s.map.bins (s.map.home key)) ≠ true) :
    s.map.capTotal ∈ touchedBins s key true := by
  have search := findBin_sound sound key
  rw [if_neg fun both => other both.2] at search
  refine List.mem_cons_of_mem _ (List.mem_append_right _ ?_)
  rw [if_pos (by simp [used, search])]
  obtain ⟨n, total⟩ := Nat.exists_eq_succ_of_ne_zero
    (Nat.ne_of_gt (lt_of_le_of_lt (Nat.zero_le _) (sound.home_lt key)))
  rw [total, scannedBins]
  exact List.mem_cons_self

/-- **One call** stays in the table if it makes no search. -/
theorem StrMapState.Sound.inTable_iff (sound : s.Sound) (op : StrMapOp) :
    s.InTable A op ↔ s.AtHome op := by
  cases op with
  | get key =>
    exact iff_of_true ⟨sound.unscanned rfl, fun creates => nomatch creates⟩ trivial
  | del key =>
    exact iff_of_true ⟨sound.unscanned rfl, fun creates => nomatch creates⟩ trivial
  | set key value =>
    have search := findBin_sound sound key
    by_cases used : (s.map.bins (s.map.home key)).used = true
    · by_cases found : checkKey s.heap key (s.map.bins (s.map.home key)) = true
      · rw [if_pos ⟨used, found⟩] at search
        refine iff_of_true ⟨sound.unscanned ?_, fun _ s' got => ?_⟩ (Or.inr found)
        · show touchedBins s key true = s.map.home key :: (walkedBins s key ++ [])
          rw [touchedBins, search, if_neg (by simp)]
        · rw [StrMapOp.key, strmapGetBin, search] at got
          cases Option.some.inj got
      · refine iff_of_false (fun inTable => ?_) ?_
        · exact lt_irrefl _ (inTable.touched _ (sound.scanned used found))
        · rintro (unused | checked)
          · rw [used] at unused
            cases unused
          · exact found checked
    · rw [if_neg fun both => used both.1] at search
      refine iff_of_true ⟨sound.unscanned ?_, fun _ s' got => ?_⟩ (Or.inl (Bool.eq_false_iff.mpr used))
      · show touchedBins s key true = s.map.home key :: (walkedBins s key ++ [])
        rw [touchedBins, if_neg (by simp [used])]
      · rw [StrMapOp.key, strmapGetBin, search] at got
        simp only [Option.bind_some, not_true_eq_false, if_false, if_pos used] at got
        obtain ⟨t, -, same⟩ := Option.map_eq_some_iff.mp got
        cases same

/-- A deletion keeps the map sound. -/
theorem StrMapState.Sound.unuse (sound : s.Sound) (b : Nat) : (unuseBin s b).Sound where
  capPos := sound.capPos
  capLe := sound.capLe
  next i inside := by
    by_cases same : i = b
    · subst same
      simpa only [StrMap.next, unuseBin, Function.update_self] using sound.next i inside
    · simpa only [StrMap.next, unuseBin, Function.update_of_ne same] using sound.next i inside
  keys i inside used := by
    by_cases same : i = b
    · subst same
      simp only [unuseBin, Function.update_self] at used
      cases used
    · simp only [unuseBin, Function.update_of_ne same] at used ⊢
      exact sound.keys i inside used

/-- **A call with a short key** is defined, and keeps the map sound. -/
theorem StrMapState.Sound.step (sound : s.Sound) (op : StrMapOp) (short : op.key.length ≤ 43) :
    ∃ s', strmapOpStep A s op = some s' ∧ s'.Sound := by
  cases op with
  | set key value =>
    obtain ⟨s', result, wrote⟩ :
      ∃ s' result, strmapSet A s key value = some (s', result) := strmapSet_short sound short value
    refine ⟨s', ?_, (strmapSet_cases sound wrote).sound sound⟩
    rw [strmapOpStep, wrote]
    rfl
  | get key =>
    refine ⟨s, ?_, sound⟩
    rw [strmapOpStep, strmapGet, strmapGetBin, findBin_sound sound]
    split <;> rfl
  | del key =>
    obtain ⟨s', del⟩ : ∃ s', strmapDel A s key = some s' := by
      rw [← Option.isSome_iff_exists, strmapDel, strmapGetBin, findBin_sound sound]
      split <;> rfl
    refine ⟨s'.1, by rw [strmapOpStep, del]; rfl, ?_⟩
    rcases strmapDel_bins del with ⟨-, same⟩ | ⟨i, -, same⟩
    · rw [same]
      exact sound
    · rw [same]
      exact sound.unuse i

/-- **When the map stays in its table.** Runs of calls with keys of at most 43 bytes are defined, from any
capacity of at least 2. No call of the run touches a bin behind the table or refuses a key while there is
room, exactly if no set of the run finds its home bin taken by another key. -/
theorem strmapRun_in_table_iff (A : BlockAlloc) {allocator tsize capTotal : Nat} {behind : Nat → StrBin}
    {heap : BlockHeap} (two : 2 ≤ capTotal) {ops : List StrMapOp}
    (short : ∀ op ∈ ops, op.key.length ≤ 43) :
    let start : StrMapState := ⟨strmapInit allocator tsize capTotal behind, heap, []⟩
    (∃ s, run (strmapOpStep A) start ops = some s) ∧
      (Along (strmapOpStep A) (StrMapState.InTable A) start ops ↔
        Along (strmapOpStep A) StrMapState.AtHome start ops) := by
  intro start
  have sound : start.Sound := strmapInit_sound two
  have keeps : ∀ s, ∀ op ∈ ops, ∀ s', s.Sound → strmapOpStep A s op = some s' → s'.Sound := by
    intro s op member s' sound stepped
    obtain ⟨t, stepped', sound'⟩ := sound.step (A := A) op (short op member)
    obtain rfl := Option.some.inj (stepped.symm.trans stepped')
    exact sound'
  refine ⟨?_, along_congr (fun s op _ sound => sound.inTable_iff op)
    (fun s op member s' sound _ stepped => keeps s op member s' sound stepped) sound⟩
  obtain ⟨s, ran, -⟩ := run_defined (fun s op member sound => sound.step op (short op member)) sound
  exact ⟨s, ran⟩

/-- A key that is set, overwritten, looked up and deleted. -/
theorem strmapRun_in_table_iff_overwrite : 2 ≤ 16 ∧
    (∀ op ∈ [StrMapOp.set [97] [1], .set [97] [2], .get [97], .del [97]], op.key.length ≤ 43) ∧
    let start : StrMapState := ⟨strmapInit 64 1 16 fun _ => .zero 1, ⟨fun _ => 0, []⟩, []⟩
    let ops := [StrMapOp.set [97] [1], .set [97] [2], .get [97], .del [97]]
    (∃ s, run (strmapOpStep .bump) start ops = some s) ∧
      (Along (strmapOpStep .bump) (StrMapState.InTable .bump) start ops ↔
        Along (strmapOpStep .bump) StrMapState.AtHome start ops) :=
  ⟨by decide, by decide, strmapRun_in_table_iff .bump (by decide) (by decide)⟩

/-- **The second of two keys with one home bin** is searched a bin for behind the table. -/
theorem second_key_behind_table :
    ¬ Along (strmapOpStep .bump) (StrMapState.InTable .bump) (emptyStrMap 2)
      [.set [97] [1], .set [98] [2]] := by
  rintro ⟨-, later⟩
  have second := (later ((strmapOpStep .bump (emptyStrMap 2) (.set [97] [1])).get (by decide +kernel))
    (Option.some_get _).symm).1
  exact absurd (second.touched 2 (by decide +kernel)) (by decide +kernel)

end Bins

end Vaudou
