/-
**Gets and sets of a string map.**

`Holds` is a key with its value in its home bin, which is where every get looks first, and in a sound
map the only bin that it looks at: no link leads anywhere. A set leaves what the map holds of other keys
(`strmapSet_keeps`), and holds its key afterwards unless the home bin was taken by another key; then the
key goes to a bin that no get finds (`strmapSet_lost`).
-/

import Vaudou.StrMap.Table
import Vaudou.Foundation.Run

namespace Vaudou

open Vaudou.Memory Vaudou.Links Vaudou.Run

/-! ### Keys in bins -/

/-- **The key that a bin stores**: its first 43 bytes, and the others in a block of the heap. -/
structure KeyAt (heap : BlockHeap) (bin : StrBin) (key : List UInt8) : Prop where
  length : bin.keyLen = key.length
  front : bin.keyPrefix.take (min 43 key.length) = key.take 43
  rest : 43 < key.length → heap.mem.load bin.keyRest (key.length - 43) = key.drop 43 ∧
    heap.OwnsRange bin.keyRest (key.length - 43)

section Keys

variable {heap heap' : BlockHeap} {bin : StrBin} {key check : List UInt8}

/-- **Keys are compared exactly.** -/
theorem KeyAt.checkKey_iff (stored : KeyAt heap bin key) :
    checkKey heap check bin = true ↔ check = key := by
  constructor
  · intro checked
    unfold checkKey at checked
    split at checked
    · cases checked
    · next same =>
      have length : check.length = key.length := by
        rw [← stored.length]
        exact (not_not.mp same).symm
      split at checked
      · cases checked
      · next front =>
        have front : check.take 43 = key.take 43 := by
          rw [← not_not.mp front, length, stored.front]
        have rest : check.drop 43 = key.drop 43 := by
          split at checked
          · next short =>
            rw [List.drop_eq_nil_of_le (by omega), List.drop_eq_nil_of_le (by omega)]
          · next long =>
            by_cases behind : 43 < key.length
            · rw [length, (stored.rest behind).1] at checked
              exact (beq_iff_eq.mp checked).symm
            · rw [List.drop_eq_nil_of_le (by omega), List.drop_eq_nil_of_le (by omega)]
        rw [← List.take_append_drop 43 check, front, rest, List.take_append_drop]
  · rintro rfl
    have front := not_not.mpr stored.front
    unfold checkKey
    rw [if_neg (not_not.mpr stored.length), if_neg front]
    split
    · rfl
    · next long =>
      by_cases behind : 43 < check.length
      · rw [(stored.rest behind).1]
        exact beq_self_eq_true _
      · rw [List.drop_eq_nil_of_le (by omega), show check.length - 43 = 0 by omega]
        rfl

/-- A stored key stays as the heap grows. -/
theorem KeyAt.kept (stored : KeyAt heap bin key) (kept : heap.Kept heap' 0 0) : KeyAt heap' bin key where
  length := stored.length
  front := stored.front
  rest behind := by
    obtain ⟨loaded, owns⟩ := stored.rest behind
    exact ⟨(load_congr (kept.region owns (Or.inr (Nat.zero_le _)))).trans loaded, owns.mono kept.live⟩

/-- The key does not depend on the other fields of the bin. -/
theorem KeyAt.congr {bin' : StrBin} (stored : KeyAt heap bin key) (length : bin'.keyLen = bin.keyLen)
    (front : bin'.keyPrefix = bin.keyPrefix) (rest : bin'.keyRest = bin.keyRest) :
    KeyAt heap bin' key := by
  obtain ⟨l, f, r⟩ := stored
  exact ⟨by rw [length, l], by rw [front, f], by rwa [rest]⟩

end Keys

/-! ### Sound maps -/

/-- **A sound map**: no link leads out of a bin of the table, and every bin that is taken
stores a key. -/
structure StrMapState.Sound (s : StrMapState) : Prop where
  capPos : 0 < s.map.cap
  capLe : s.map.cap ≤ s.map.capTotal
  next : ∀ i < s.map.capTotal, s.map.next i = none
  keys : ∀ i < s.map.capTotal, (s.map.bins i).used = true → ∃ key, KeyAt s.heap (s.map.bins i) key

/-- **The map has the key with this value**, in the home bin. -/
structure StrMapState.Holds (s : StrMapState) (key value : List UInt8) : Prop where
  used : (s.map.bins (s.map.home key)).used = true
  stored : KeyAt s.heap (s.map.bins (s.map.home key)) key
  value : (s.map.bins (s.map.home key)).value = value

/-- `copy_key` took the bin `i` for the key. -/
structure StrMapState.Takes (s : StrMapState) (key : List UInt8) (i : Nat)
    (s' : StrMapState) : Prop where
  header : s'.map = { s.map with bins := s'.map.bins }
  others : ∀ j, j ≠ i → s'.map.bins j = s.map.bins j
  used : (s'.map.bins i).used = true
  next : (s'.map.bins i).next = none
  stored : KeyAt s'.heap (s'.map.bins i) key
  kept : s.heap.Kept s'.heap 0 0

/-- The value of a bin is overwritten. -/
def StrMapState.setValue (s : StrMapState) (i : Nat) (value : List UInt8) : StrMapState :=
  { s with map := { s.map with
      bins := Function.update s.map.bins i { s.map.bins i with value := value } } }

section Maps

variable {A : BlockAlloc} {s s' : StrMapState} {key value : List UInt8}

theorem StrMapState.Sound.home_lt (sound : s.Sound) (key : List UInt8) :
    s.map.home key < s.map.capTotal :=
  lt_of_lt_of_le (Nat.mod_lt _ sound.capPos) sound.capLe

/-- **A fresh map is sound.** -/
theorem strmapInit_sound {allocator tsize capTotal : Nat} {behind : Nat → StrBin} {heap : BlockHeap}
    {freed : List (Nat × Nat)} (two : 2 ≤ capTotal) :
    StrMapState.Sound ⟨strmapInit allocator tsize capTotal behind, heap, freed⟩ where
  capPos := (reducedCap_bounds two).1
  capLe := (reducedCap_bounds two).2
  next i inside := by
    show ((if i < capTotal then StrBin.zero tsize else behind i) : StrBin).next = none
    rw [if_pos (show i < capTotal from inside)]
    rfl
  keys i inside used := by
    have zero : (strmapInit allocator tsize capTotal behind).bins i = .zero tsize :=
      if_pos (show i < capTotal from inside)
    rw [zero] at used
    cases used

/-- A search looks at the home bin only, if no link leads out of it. -/
theorem findBin_unlinked {key : List UInt8} (last : s.map.next (s.map.home key) = none) :
    findBin s key = some (if (s.map.bins (s.map.home key)).used = true ∧
      checkKey s.heap key (s.map.bins (s.map.home key)) = true then some (s.map.home key) else none) :=
        by
  unfold findBin
  by_cases used : (s.map.bins (s.map.home key)).used = true
  · by_cases found : checkKey s.heap key (s.map.bins (s.map.home key)) = true
    · simp only [used, found, and_self, if_true, follow]
    · simp only [used, found, follow, last, if_true, if_false, and_false,
        Bool.false_eq_true]
  · simp only [used, if_false, false_and, Bool.false_eq_true]

/-- **A search looks at the home bin only.** -/
theorem findBin_sound (sound : s.Sound) (key : List UInt8) :
    findBin s key = some (if (s.map.bins (s.map.home key)).used = true ∧
      checkKey s.heap key (s.map.bins (s.map.home key)) = true then some (s.map.home key) else none) :=
  findBin_unlinked (sound.next _ (sound.home_lt key))

/-- **A get returns what the map holds.** -/
theorem strmapGet_iff (sound : s.Sound) : strmapGet A s key = some (some value) ↔ s.Holds key value := by
  unfold strmapGet strmapGetBin
  rw [findBin_sound sound]
  by_cases here : (s.map.bins (s.map.home key)).used = true ∧
      checkKey s.heap key (s.map.bins (s.map.home key)) = true
  · rw [if_pos here]
    constructor
    · intro same
      obtain ⟨stored, is⟩ := sound.keys _ (sound.home_lt key) here.1
      obtain rfl := is.checkKey_iff.mp here.2
      exact ⟨here.1, is, Option.some.inj (Option.some.inj same)⟩
    · rintro ⟨-, -, rfl⟩
      rfl
  · rw [if_neg here]
    constructor
    · intro same
      cases Option.some.inj same
    · rintro ⟨used, stored, -⟩
      exact absurd ⟨used, stored.checkKey_iff.mpr rfl⟩ here

/-- A get of a key whose home bin is taken by another key returns false. -/
theorem strmapGet_other (sound : s.Sound)
    (other : checkKey s.heap key (s.map.bins (s.map.home key)) ≠ true) :
    strmapGet A s key = some none := by
  unfold strmapGet strmapGetBin
  rw [findBin_sound sound, if_neg fun both => other both.2]
  rfl

/-- **Two keys are not found in one bin.** -/
theorem findBin_apart (sound : s.Sound) {key' : List UInt8} {i : Nat}
    (found : findBin s key = some (some i))
    (found' : findBin s key' = some (some i)) : key = key' := by
  have here : ∀ {key : List UInt8}, findBin s key = some (some i) →
      i < s.map.capTotal ∧ (s.map.bins i).used = true ∧ checkKey s.heap key (s.map.bins i) = true := by
    intro key found
    rw [findBin_sound sound] at found
    obtain ⟨both, same⟩ := Option.ite_none_right_eq_some.mp (Option.some.inj found)
    obtain rfl := Option.some.inj same
    exact ⟨sound.home_lt key, both⟩
  obtain ⟨inside, used, checked⟩ := here found
  obtain ⟨-, -, checked'⟩ := here found'
  obtain ⟨stored, is⟩ := sound.keys i inside used
  rw [is.checkKey_iff.mp checked, is.checkKey_iff.mp checked']

/-! ### Taking a bin -/

/-- The first bytes of a key that is copied over another one. -/
theorem take_copied (key old : List UInt8) :
    (key.take 43 ++ old.drop (min 43 key.length)).take (min 43 key.length) = key.take 43 := by
  rw [← List.length_take, List.take_left]

/-- **What `copy_key` did**: it stored the key in the bin, and what is behind the prefix in a new
block. -/
theorem copyKey_cases {t : StrMapState} {i : Nat} (copy : copyKey A s key i = some t) :
    (43 < key.length ∧ ∃ heap' p, A.alloc s.heap (key.length - 43) = some (heap', p) ∧
      t = { s with
        map := { s.map with
          bins := Function.update s.map.bins i { s.map.bins i with
            keyLen := key.length
            keyPrefix := key.take 43 ++ (s.map.bins i).keyPrefix.drop (min 43 key.length)
            keyRest := p } }
        heap := { heap' with mem := heap'.mem.store p (key.drop 43) } }) ∨
    (key.length ≤ 43 ∧ t = { s with
      map := { s.map with
        bins := Function.update s.map.bins i { s.map.bins i with
          keyLen := key.length
          keyPrefix := key.take 43 ++ (s.map.bins i).keyPrefix.drop (min 43 key.length) } } }) := by
  unfold copyKey at copy
  simp only at copy
  split at copy
  · next long =>
    split at copy
    · cases copy
    · obtain ⟨⟨heap', p⟩, alloc, rfl⟩ := Option.map_eq_some_iff.mp copy
      exact Or.inl ⟨long, heap', p, alloc, rfl⟩
  · next short => exact Or.inr ⟨Nat.not_lt.mp short, (Option.some.inj copy).symm⟩

/-- **`copy_key` stores the key.** -/
theorem takeBin_takes {i : Nat} (took : takeBin A s key i = some s') : s.Takes key i s' := by
  obtain ⟨copied, copy, rfl⟩ := Option.map_eq_some_iff.mp took
  obtain ⟨-, heap', p, alloc, rfl⟩ | ⟨short, rfl⟩ := copyKey_cases copy
  · have tail : (key.drop 43).length = key.length - 43 := List.length_drop
    refine ⟨rfl, fun j ne => ?_, ?_, ?_, ⟨?_, ?_, fun _ => ?_⟩, .alloc_store alloc (le_of_eq tail)⟩
    · simp only [Function.update_of_ne ne]
    · simp only [Function.update_self]
    · simp only [Function.update_self]
    · simp only [Function.update_self]
    · simp only [Function.update_self, take_copied]
    · simp only [Function.update_self]
      have stored := load_store_same heap'.mem p (key.drop 43)
      rw [tail] at stored
      exact ⟨stored, fun x low high => (BlockAlloc.owns alloc x low high).mono (List.Subset.refl _)⟩
  · refine ⟨rfl, fun j ne => ?_, ?_, ?_, ⟨?_, ?_, fun long => absurd short (Nat.not_le.mpr long)⟩,
      .refl _ _ _⟩
    · simp only [Function.update_of_ne ne]
    · simp only [Function.update_self]
    · simp only [Function.update_self]
    · simp only [Function.update_self]
    · simp only [Function.update_self, take_copied]

variable (A s) in
/-- A key without a tail can be stored in every bin. -/
theorem takeBin_short (i : Nat) (short : key.length ≤ 43) : ∃ s', takeBin A s key i = some s' := by
  have copied : (copyKey A s key i).isSome = true := by
    unfold copyKey
    simp only [if_neg (Nat.not_lt.mpr short)]
    rfl
  obtain ⟨t, copied⟩ := Option.isSome_iff_exists.mp copied
  exact ⟨_, Option.map_eq_some_iff.mpr ⟨t, copied, rfl⟩⟩

/-- `copy_key` can store the key in the bin: it has no tail, or what stands in front of the bin is the
allocator. -/
def StrMap.Storable (map : StrMap) (key : List UInt8) (i : Nat) : Prop :=
  key.length ≤ 43 ∨ map.headerAllocator i = map.allocator

instance (map : StrMap) (key : List UInt8) (i : Nat) : Decidable (map.Storable key i) :=
  inferInstanceAs (Decidable (_ ∨ _))

/-- **`copy_key` is defined** for the keys that can be stored, unless the allocator refuses. -/
theorem takeBin_storable {i : Nat} (room : (A.alloc s.heap (key.length - 43)).isSome = true) :
    (∃ s', takeBin A s key i = some s') ↔ s.map.Storable key i := by
  have copied : (∃ s', takeBin A s key i = some s') ↔ (copyKey A s key i).isSome = true := by
    rw [takeBin, ← Option.isSome_iff_exists, Option.isSome_map]
  rw [copied, copyKey]
  by_cases long : 43 < key.length
  · simp only [if_pos long]
    by_cases header : s.map.headerAllocator i = s.map.allocator
    · rw [if_neg (not_not.mpr header), Option.isSome_map]
      exact iff_of_true room (Or.inr header)
    · rw [if_pos header]
      exact iff_of_false Bool.false_ne_true (not_or.mpr ⟨Nat.not_le.mpr long, header⟩)
  · simp only [if_neg long]
    exact iff_of_true rfl (Or.inl (Nat.not_lt.mp long))

/-- The tail of a key is what `copy_key` asks the allocator for. -/
theorem takeBin_granted {start : BlockHeap} {used i : Nat} (granted : Granted A start s.heap used)
    (took : takeBin A s key i = some s') : Granted A start s'.heap (used + (key.length - 43)) := by
  obtain ⟨copied, copy, rfl⟩ := Option.map_eq_some_iff.mp took
  obtain ⟨-, heap', p, alloc, rfl⟩ | ⟨short, rfl⟩ := copyKey_cases copy
  · exact (granted.alloc alloc).write _
  · rw [Nat.sub_eq_zero_of_le short, Nat.add_zero]
    exact granted

/-- **The search for a free bin** finds none if all bins from 1 on are taken, and otherwise one that is
not. -/
theorem freeBin_spec (map : StrMap) : ∀ cursor,
    (freeBin map cursor = 0 ∧ ∀ i, 0 < i → i ≤ cursor → (map.bins i).used = true) ∨
      (0 < freeBin map cursor ∧ freeBin map cursor ≤ cursor ∧
        (map.bins (freeBin map cursor)).used = false)
  | 0 => Or.inl ⟨rfl, fun i pos le => absurd pos (by omega)⟩
  | cursor + 1 => by
    rw [freeBin]
    by_cases used : (map.bins (cursor + 1)).used = true
    · rw [if_pos used]
      rcases freeBin_spec map cursor with ⟨none_, taken⟩ | ⟨pos, below, free⟩
      · refine Or.inl ⟨none_, fun i low high => ?_⟩
        rcases Nat.lt_or_ge cursor i with last | before
        · obtain rfl : i = cursor + 1 := by omega
          exact used
        · exact taken i low before
      · exact Or.inr ⟨pos, Nat.le_succ_of_le below, free⟩
    · rw [if_neg used]
      exact Or.inr ⟨Nat.succ_pos _, le_rfl, Bool.eq_false_iff.mpr used⟩

/-- A bin that is taken for a key keeps the map sound, and what it holds elsewhere. -/
theorem StrMapState.Takes.sound {i : Nat} (sound : s.Sound) (takes : s.Takes key i s') : s'.Sound := by
  obtain ⟨map, bins, used, next, stored, kept⟩ := takes
  have total : s'.map.capTotal = s.map.capTotal := by rw [map]
  refine ⟨by rw [map]; exact sound.capPos, by rw [map]; exact sound.capLe, ?_, ?_⟩
  · intro j inside
    by_cases same : j = i
    · subst same
      exact next
    · rw [StrMap.next, bins j same]
      exact sound.next j (total ▸ inside)
  · intro j inside taken
    by_cases same : j = i
    · subst same
      exact ⟨key, stored⟩
    · rw [bins j same] at taken ⊢
      obtain ⟨other, is⟩ := sound.keys j (total ▸ inside) taken
      exact ⟨other, is.kept kept⟩

theorem StrMapState.Takes.home {i : Nat} (takes : s.Takes key i s') (other : List UInt8) :
    s'.map.home other = s.map.home other := by
  rw [takes.header]
  rfl

theorem StrMapState.Takes.holds {i : Nat} {other v : List UInt8} (takes : s.Takes key i s')
    (holds : s.Holds other v) (apart : s.map.home other ≠ i) : s'.Holds other v := by
  have home := takes.home other
  have bins := takes.others _ apart
  refine ⟨?_, ?_, ?_⟩ <;> rw [home, bins]
  · exact holds.used
  · exact holds.stored.kept takes.kept
  · exact holds.value

theorem StrMapState.setValue_other {i j : Nat} (value : List UInt8) (ne : j ≠ i) :
    (s.setValue i value).map.bins j = s.map.bins j :=
  Function.update_of_ne ne _ _

/-- Overwriting a value keeps the map sound. -/
theorem StrMapState.Sound.setValue (sound : s.Sound) (i : Nat) (value : List UInt8) :
    (s.setValue i value).Sound := by
  have bins : ∀ j, ∃ v, (s.setValue i value).map.bins j = { s.map.bins j with value := v } := by
    intro j
    by_cases same : j = i
    · subst same
      exact ⟨value, Function.update_self _ _ _⟩
    · exact ⟨_, Function.update_of_ne same _ _⟩
  refine ⟨sound.capPos, sound.capLe, fun j inside => ?_, fun j inside used => ?_⟩
  · obtain ⟨v, bin⟩ := bins j
    rw [StrMap.next, bin]
    exact sound.next j inside
  · obtain ⟨v, bin⟩ := bins j
    rw [bin] at used ⊢
    obtain ⟨key, is⟩ := sound.keys j inside used
    exact ⟨key, is.congr rfl rfl rfl⟩

theorem StrMapState.Holds.setValue {other v : List UInt8} (holds : s.Holds other v) {i : Nat}
    (apart : s.map.home other ≠ i) : (s.setValue i value).Holds other v := by
  have bins := s.setValue_other value apart
  refine ⟨?_, ?_, ?_⟩
  · exact (congrArg StrBin.used bins).trans holds.used
  · exact holds.stored.congr (congrArg StrBin.keyLen bins) (congrArg StrBin.keyPrefix bins)
      (congrArg StrBin.keyRest bins)
  · exact (congrArg StrBin.value bins).trans holds.value

/-- The key of a home bin has the value that is written there. -/
theorem holds_setValue (used : (s.map.bins (s.map.home key)).used = true)
    (stored : KeyAt s.heap (s.map.bins (s.map.home key)) key) (value : List UInt8) :
    (s.setValue (s.map.home key) value).Holds key value := by
  have bins : (s.setValue (s.map.home key) value).map.bins (s.map.home key) =
      { s.map.bins (s.map.home key) with value := value } := Function.update_self _ _ _
  refine ⟨?_, ?_, ?_⟩
  · exact (congrArg StrBin.used bins).trans used
  · show KeyAt s.heap ((s.setValue (s.map.home key) value).map.bins (s.map.home key)) key
    rw [bins]
    exact stored.congr rfl rfl rfl
  · exact congrArg StrBin.value bins

/-! ### Sets -/

/-- A set goes to the home bin, or it fails: the home bin is free or holds the key, or no bin that the
search looks at is free. -/
def StrMapState.Settles (s : StrMapState) (key : List UInt8) : Prop :=
  (s.map.bins (s.map.home key)).used = false ∨
    checkKey s.heap key (s.map.bins (s.map.home key)) = true ∨
      ∀ i ≤ s.map.capTotal, 0 < i → (s.map.bins i).used = true

instance (s : StrMapState) (key : List UInt8) : Decidable (s.Settles key) :=
  inferInstanceAs (Decidable (_ ∨ _ ∨ _))

/-- **What a set does.** -/
inductive StrMapState.SetCases (s : StrMapState) (key value : List UInt8) :
    StrMapState → Bool → Prop where
  | update (stored : KeyAt s.heap (s.map.bins (s.map.home key)) key)
      (used : (s.map.bins (s.map.home key)).used = true) :
      SetCases s key value (s.setValue (s.map.home key) value) true
  | create {t} (free : (s.map.bins (s.map.home key)).used = false)
      (takes : s.Takes key (s.map.home key) t) :
      SetCases s key value (t.setValue (s.map.home key) value) true
  | full (used : (s.map.bins (s.map.home key)).used = true)
      (all : ∀ i ≤ s.map.capTotal, 0 < i → (s.map.bins i).used = true) : SetCases s key value s false
  | overflow {t i} (used : (s.map.bins (s.map.home key)).used = true)
      (other : checkKey s.heap key (s.map.bins (s.map.home key)) ≠ true) (pos : 0 < i)
      (inside : i ≤ s.map.capTotal) (free : (s.map.bins i).used = false) (takes : s.Takes key i t) :
      SetCases s key value (t.setValue i value) true

theorem strmapSet_cases (sound : s.Sound) {result : Bool}
    (wrote : strmapSet A s key value = some (s', result)) : s.SetCases key value s' result := by
  obtain ⟨⟨t, found⟩, got, written⟩ := Option.map_eq_some_iff.mp wrote
  unfold strmapGetBin at got
  rw [findBin_sound sound] at got
  by_cases here : (s.map.bins (s.map.home key)).used = true ∧
      checkKey s.heap key (s.map.bins (s.map.home key)) = true
  · rw [if_pos here] at got
    obtain ⟨rfl, rfl⟩ := Prod.mk.inj (Option.some.inj got)
    obtain ⟨rfl, rfl⟩ := Prod.mk.inj written
    obtain ⟨stored, is⟩ := sound.keys _ (sound.home_lt key) here.1
    obtain rfl := is.checkKey_iff.mp here.2
    exact .update is here.1
  · rw [if_neg here] at got
    simp only [Option.bind_some, not_true_eq_false, if_false] at got
    by_cases used : (s.map.bins (s.map.home key)).used = true
    · rw [if_neg (not_not.mpr used)] at got
      rcases freeBin_spec s.map s.map.capTotal with ⟨none_, taken⟩ | ⟨pos, inside, free⟩
      · rw [if_pos none_] at got
        obtain ⟨rfl, rfl⟩ := Prod.mk.inj (Option.some.inj got)
        obtain ⟨rfl, rfl⟩ := Prod.mk.inj written
        exact .full used fun i le pos => taken i pos le
      · rw [if_neg (Nat.pos_iff_ne_zero.mp pos)] at got
        obtain ⟨u, took, same⟩ := Option.map_eq_some_iff.mp got
        obtain ⟨rfl, rfl⟩ := Prod.mk.inj same
        obtain ⟨rfl, rfl⟩ := Prod.mk.inj written
        exact .overflow used (fun found => here ⟨used, found⟩) pos inside free (takeBin_takes took)
    · rw [if_pos used] at got
      obtain ⟨u, took, same⟩ := Option.map_eq_some_iff.mp got
      obtain ⟨rfl, rfl⟩ := Prod.mk.inj same
      obtain ⟨rfl, rfl⟩ := Prod.mk.inj written
      exact .create (Bool.eq_false_iff.mpr used) (takeBin_takes took)

/-- **A set keeps the map sound.** -/
theorem StrMapState.SetCases.sound {result : Bool} (sound : s.Sound)
    (cases_ : s.SetCases key value s' result) : s'.Sound := by
  cases cases_ with
  | update _ _ => exact sound.setValue _ _
  | create _ takes => exact (takes.sound sound).setValue _ _
  | full _ _ => exact sound
  | overflow _ _ _ _ _ takes => exact (takes.sound sound).setValue _ _

/-- A bin that is taken while it was free, and gets a value, is not the bin of a key of the map. -/
theorem StrMapState.Takes.keeps {t : StrMapState} {i : Nat} {other v : List UInt8}
    (takes : s.Takes key i t) (free : (s.map.bins i).used = false) (holds : s.Holds other v) :
    (t.setValue i value).Holds other v := by
  have apart : s.map.home other ≠ i := by
    rintro rfl
    have used := holds.used
    rw [free] at used
    cases used
  refine (takes.holds holds apart).setValue ?_
  rw [takes.home]
  exact apart

/-- **A set leaves what the map has of other keys.** -/
theorem StrMapState.SetCases.keeps {result : Bool} {other v : List UInt8}
    (cases_ : s.SetCases key value s' result) (different : other ≠ key) (holds : s.Holds other v) :
    s'.Holds other v := by
  cases cases_ with
  | update stored _ =>
    refine holds.setValue fun same => different ?_
    have is := holds.stored
    rw [same] at is
    exact stored.checkKey_iff.mp (is.checkKey_iff.mpr rfl) ▸ rfl
  | create free takes => exact takes.keeps free holds
  | full _ _ => exact holds
  | overflow _ _ _ _ free takes => exact takes.keeps free holds

/-- **A set that returns true puts the value into the map**, if it goes to the home bin. -/
theorem StrMapState.SetCases.holds (cases_ : s.SetCases key value s' true) (settles : s.Settles key) :
    s'.Holds key value := by
  cases cases_ with
  | update stored used => exact holds_setValue used stored value
  | @create t _ takes =>
    have home := takes.home key
    have used : (t.map.bins (t.map.home key)).used = true := home ▸ takes.used
    have stored : KeyAt t.heap (t.map.bins (t.map.home key)) key := home ▸ takes.stored
    have holds := holds_setValue used stored value
    rwa [home] at holds
  | overflow used other pos inside free _ =>
    rcases settles with unused | found | all
    · rw [used] at unused
      cases unused
    · exact absurd found other
    · rw [all _ inside pos] at free
      cases free

/-- **A set that does not go to the home bin is lost**: it returns true, and a get returns false. -/
theorem strmapSet_lost (sound : s.Sound) {result : Bool}
    (wrote : strmapSet A s key value = some (s', result)) (lost : ¬ s.Settles key) :
    result = true ∧ strmapGet A s' key = some none := by
  have cases_ := strmapSet_cases sound wrote
  have sound' := cases_.sound sound
  cases cases_ with
  | update stored _ => exact absurd (Or.inr (Or.inl (stored.checkKey_iff.mpr rfl))) lost
  | create free _ => exact absurd (Or.inl free) lost
  | full _ all => exact absurd (Or.inr (Or.inr all)) lost
  | @overflow t i used other _ _ free takes =>
    have apart : s.map.home key ≠ i := by
      intro same
      rw [same, free] at used
      cases used
    obtain ⟨stored, is⟩ := sound.keys _ (sound.home_lt key) used
    have bins : (t.setValue i value).map.bins (t.map.home key) = s.map.bins (s.map.home key) := by
      rw [takes.home]
      exact (t.setValue_other value apart).trans (takes.others _ apart)
    refine ⟨rfl, strmapGet_other sound' fun found => other ?_⟩
    rw [show (t.setValue i value).map.home key = t.map.home key from rfl, bins] at found
    obtain rfl := (is.kept takes.kept).checkKey_iff.mp found
    exact is.checkKey_iff.mpr rfl

/-- A set of a key whose home bin is free takes that bin. -/
theorem strmapSet_free (sound : s.Sound) (free : (s.map.bins (s.map.home key)).used = false) :
    strmapSet A s key value = (takeBin A s key (s.map.home key)).map fun t =>
      (t.setValue (s.map.home key) value, true) := by
  have unused : ¬ (s.map.bins (s.map.home key)).used = true := Bool.eq_false_iff.mp free
  unfold strmapSet strmapGetBin
  rw [findBin_sound sound, if_neg fun both => unused both.1]
  simp only [Option.bind_some, not_true_eq_false, if_false, if_pos unused, Option.map_map]
  rfl

/-- A set of a key without a tail is always defined. -/
theorem strmapSet_short (sound : s.Sound) (short : key.length ≤ 43) (value : List UInt8) :
    ∃ s' result, strmapSet A s key value = some (s', result) := by
  have got : (strmapGetBin A s key true false).isSome = true := by
    unfold strmapGetBin
    rw [findBin_sound sound]
    split
    · rfl
    · simp only [Option.bind_some, not_true_eq_false, if_false]
      split
      · obtain ⟨t, took⟩ := takeBin_short A s (s.map.home key) short
        rw [took]
        rfl
      · split
        · rfl
        · obtain ⟨t, took⟩ := takeBin_short A s (freeBin s.map s.map.capTotal) short
          rw [took]
          rfl
  obtain ⟨⟨t, found⟩, got⟩ := Option.isSome_iff_exists.mp got
  cases found with
  | none => exact ⟨t, false, Option.map_eq_some_iff.mpr ⟨_, got, rfl⟩⟩
  | some i => exact ⟨_, true, Option.map_eq_some_iff.mpr ⟨_, got, rfl⟩⟩

end Maps

/-! ### Runs of sets -/

section Runs

variable {A : BlockAlloc} {start s s' : StrMapState} {sets : List (List UInt8 × List UInt8)}

/-- One set of a run. -/
def strmapStep (A : BlockAlloc) (s : StrMapState) (set : List UInt8 × List UInt8) :
    Option StrMapState :=
  (strmapSet A s set.1 set.2).map Prod.fst

/-- Whenever a set of the run returned true, a get returns its value until the key is set again. -/
def GetAfterSet (A : BlockAlloc) (start : StrMapState) (sets : List (List UInt8 × List UInt8)) : Prop :=
  ∀ before key value between after, sets = before ++ (key, value) :: (between ++ after) →
    (∀ set ∈ between, set.1 ≠ key) → ∀ s s' s'', run (strmapStep A) start before = some s →
      strmapSet A s key value = some (s', true) → run (strmapStep A) s' between = some s'' →
        strmapGet A s'' key = some (some value)

/-- Two different keys never share a bin in the run. -/
def NeverShared (A : BlockAlloc) (start : StrMapState) (sets : List (List UInt8 × List UInt8)) : Prop :=
  ∀ before after, sets = before ++ after → ∀ s, run (strmapStep A) start before = some s →
    ∀ key key' i, findBin s key = some (some i) → findBin s key' = some (some i) → key = key'

theorem strmapStep_cases {set : List UInt8 × List UInt8} (sound : s.Sound)
    (stepped : strmapStep A s set = some s') : ∃ result, s.SetCases set.1 set.2 s' result := by
  obtain ⟨⟨t, result⟩, wrote, rfl⟩ := Option.map_eq_some_iff.mp stepped
  exact ⟨result, strmapSet_cases sound wrote⟩

theorem strmapRun_sound (sound : start.Sound)
    (ran : run (strmapStep A) start sets = some s) : s.Sound := by
  refine run_invariant (fun s set s' sound stepped => ?_) ran sound
  obtain ⟨result, cases_⟩ := strmapStep_cases sound stepped
  exact cases_.sound sound

/-- What the map has stays until the key is set again. -/
theorem strmapRun_holds {key value : List UInt8} : ∀ {between : List (List UInt8 × List UInt8)}
    {s s' : StrMapState}, s.Sound → (∀ set ∈ between, set.1 ≠ key) → s.Holds key value →
      run (strmapStep A) s between = some s' → s'.Holds key value
  | [], _, _, _, _, holds, ran => by
    cases ran
    exact holds
  | set :: between, s, s', sound, others, holds, ran => by
    obtain ⟨next, stepped, ran⟩ := run_cons_some.mp ran
    obtain ⟨result, cases_⟩ := strmapStep_cases sound stepped
    exact strmapRun_holds (cases_.sound sound)
      (fun set member => others set (List.mem_cons_of_mem _ member))
      (cases_.keeps (others set List.mem_cons_self).symm holds) ran

/-- A run of sets of keys without tails is always defined. -/
theorem strmapRun_short {sets : List (List UInt8 × List UInt8)} (sound : s.Sound)
    (short : ∀ set ∈ sets, set.1.length ≤ 43) : ∃ s', run (strmapStep A) s sets = some s' := by
  have steps : ∀ t, ∀ set ∈ sets, StrMapState.Sound t →
      ∃ t', strmapStep A t set = some t' ∧ t'.Sound := by
    intro t set member sound
    obtain ⟨next, result, wrote⟩ := strmapSet_short sound (short set member) set.2
    exact ⟨next, Option.map_eq_some_iff.mpr ⟨_, wrote, rfl⟩, (strmapSet_cases sound wrote).sound sound⟩
  obtain ⟨s', ran, -⟩ := run_defined steps sound
  exact ⟨s', ran⟩

/-- **A get finds what was set, in exactly the runs whose sets all settle.** No run of sets of keys
with at most 43 bytes is undefined, and in none do two keys share a bin. -/
theorem strmapRun_get_after_set (A : BlockAlloc) {allocator tsize capTotal : Nat}
    {behind : Nat → StrBin} {heap : BlockHeap} (two : 2 ≤ capTotal)
    (short : ∀ set ∈ sets, set.1.length ≤ 43) :
    let start : StrMapState := ⟨strmapInit allocator tsize capTotal behind, heap, []⟩
    (∃ s, run (strmapStep A) start sets = some s) ∧
      (GetAfterSet A start sets ∧ NeverShared A start sets ↔
        Along (strmapStep A) (fun s set => s.Settles set.1) start sets) := by
  intro start
  have sound : start.Sound := strmapInit_sound two
  have shared : NeverShared A start sets := by
    intro before after _ s ran key key' i found found'
    exact findBin_apart (strmapRun_sound sound ran) found found'
  refine ⟨strmapRun_short sound short, ?_, ?_⟩
  · rintro ⟨gets, -⟩
    refine along_iff.mpr fun before set after split s ran => ?_
    by_contra lost
    have soundS := strmapRun_sound sound ran
    have member : set ∈ sets := by
      rw [split]
      exact List.mem_append_right _ List.mem_cons_self
    obtain ⟨s', result, wrote⟩ := strmapSet_short soundS (short set member) set.2
    obtain ⟨rfl, missing⟩ := strmapSet_lost soundS wrote lost
    have got := gets before set.1 set.2 [] after split (fun _ none_ => absurd none_ List.not_mem_nil)
      s s' s' ran wrote rfl
    rw [missing] at got
    cases got
  · intro along
    refine ⟨?_, shared⟩
    intro before key value between after split others s s' s'' ran wrote later
    have soundS := strmapRun_sound sound ran
    have cases_ := strmapSet_cases soundS wrote
    have settles := along_iff.mp along before (key, value) (between ++ after) split s ran
    have holds := strmapRun_holds (cases_.sound soundS) others (cases_.holds settles) later
    exact (strmapGet_iff (strmapRun_sound (cases_.sound soundS) later)).mpr holds

/-- An empty map with a table of `capTotal` bins, and bins in use behind it. -/
def emptyStrMap (capTotal : Nat) : StrMapState :=
  ⟨strmapInit 64 1 capTotal fun _ => { StrBin.zero 1 with used := true }, ⟨fun _ => 0, []⟩, []⟩

theorem strmapRun_get_after_set_twice :
    GetAfterSet .bump (emptyStrMap 16) [([97], [1]), ([98], [2]), ([97], [3])] ∧
      NeverShared .bump (emptyStrMap 16) [([97], [1]), ([98], [2]), ([97], [3])] :=
  (strmapRun_get_after_set .bump (by decide) (by decide)).2.mpr (by decide +kernel)

/-- **The second of two keys with one home bin is lost**: its set returns true, and a get false. -/
theorem second_key_lost :
    ((strmapSet .bump (emptyStrMap 2) [97] [1]).bind fun first =>
      (strmapSet .bump first.1 [98] [2]).bind fun second =>
        (strmapGet .bump second.1 [98]).map fun got => (first.2, second.2, got)) =
      some (true, true, none) := by
  decide +kernel

end Runs

end Vaudou
