/-
**The tails of keys in a string map.**

A bin whose key is longer than 43 bytes owns a block of the heap. A set gives at most one bin a key
(`strmapSet_bins`), and with it a block if the key is long; a delete lets go of the bin that was found
(`strmapDel_bins`).
-/

import Vaudou.StrMap.Lookup

namespace Vaudou

open Vaudou.Memory

/-- The bin has the key it had. -/
structure StrBin.SameKey (bin bin' : StrBin) : Prop where
  next : bin'.next = bin.next
  keyLen : bin'.keyLen = bin.keyLen
  used : bin'.used = bin.used
  keyRest : bin'.keyRest = bin.keyRest

/-- The bin got a key: a short one, which leaves `key_rest` as it was, or a long one with a block for its
tail. -/
inductive GetsKey (A : BlockAlloc) (s s' : StrMapState) (key : List UInt8) (i : Nat) : Prop
  | short (le : key.length ≤ 43) (heap : s'.heap = s.heap)
      (keyRest : (s'.map.bins i).keyRest = (s.map.bins i).keyRest)
  | long (lt : 43 < key.length) (heap' : BlockHeap)
      (granted : A.alloc s.heap (key.length - 43) = some (heap', (s'.map.bins i).keyRest))
      (live : s'.heap.live = heap'.live)

/-- What a set does to the keys of a map. -/
inductive SetKeys (A : BlockAlloc) (s s' : StrMapState) (key : List UInt8) : Prop
  | none (heap : s'.heap = s.heap) (same : ∀ b, (s.map.bins b).SameKey (s'.map.bins b))
  | one (i : Nat) (free : (s.map.bins i).used = false)
      (same : ∀ b, b ≠ i → (s.map.bins b).SameKey (s'.map.bins b)) (used : (s'.map.bins i).used = true)
      (next : (s'.map.bins i).next = Option.none) (keyLen : (s'.map.bins i).keyLen = key.length)
      (gets : GetsKey A s s' key i)

section Maps

variable {A : BlockAlloc} {s s' : StrMapState} {key value : List UInt8} {i : Nat}

theorem StrBin.SameKey.refl (bin : StrBin) : bin.SameKey bin := ⟨rfl, rfl, rfl, rfl⟩

/-- **`copy_key`** gives a bin the key. -/
theorem takeBin_gets (took : takeBin A s key i = some s') : GetsKey A s s' key i := by
  obtain ⟨copied, copy, rfl⟩ := Option.map_eq_some_iff.mp took
  obtain ⟨long, heap', p, alloc, rfl⟩ | ⟨short, rfl⟩ := copyKey_cases copy
  · refine .long long heap' ?_ rfl
    simp only [Function.update_self]
    exact alloc
  · refine .short short rfl ?_
    simp only [Function.update_self]

/-- A bin that is not taken gets the key, and its value. -/
theorem SetKeys.of_take {t : StrMapState} (free : (s.map.bins i).used = false)
    (took : takeBin A s key i = some t) : SetKeys A s (t.setValue i value) key := by
  have takes := takeBin_takes took
  refine .one i free (fun b other => ?_) ?_ ?_ ?_ ?_
  · show (s.map.bins b).SameKey (Function.update t.map.bins i _ b)
    rw [Function.update_of_ne other, takes.others b other]
    exact .refl _
  · simp only [StrMapState.setValue, Function.update_self, takes.used]
  · simp only [StrMapState.setValue, Function.update_self, takes.next]
  · simp only [StrMapState.setValue, Function.update_self, takes.stored.length]
  · cases takeBin_gets took with
    | short le heap keyRest =>
      refine .short le heap ?_
      simp only [StrMapState.setValue, Function.update_self, keyRest]
    | long lt heap' granted live =>
      refine .long lt heap' ?_ live
      simp only [StrMapState.setValue, Function.update_self, granted]

/-- **`VD_STRMAP_SET`** gives at most one bin a key. -/
theorem strmapSet_bins {result : Bool} (ran : strmapSet A s key value = some (s', result)) :
    s'.map = { s.map with bins := s'.map.bins } ∧ SetKeys A s s' key := by
  obtain ⟨⟨t, found⟩, got, same⟩ := Option.map_eq_some_iff.mp ran
  obtain ⟨search, searched, got⟩ := Option.bind_eq_some_iff.mp got
  have taken : ∀ {i : Nat}, (s.map.bins i).used = false → takeBin A s key i = some t →
      s' = t.setValue i value → s'.map = { s.map with bins := s'.map.bins } ∧ SetKeys A s s' key := by
    rintro i free took rfl
    have header := (takeBin_takes took).header
    refine ⟨?_, .of_take free took⟩
    rw [StrMapState.setValue, header]
  cases search with
  | some i =>
    obtain ⟨rfl, rfl⟩ := Prod.mk.inj (Option.some.inj got)
    obtain ⟨rfl, -⟩ := Prod.mk.inj same
    refine ⟨rfl, .none rfl fun b => ?_⟩
    show (s.map.bins b).SameKey (Function.update s.map.bins i { s.map.bins i with value := value } b)
    by_cases here : b = i
    · subst here
      rw [Function.update_self]
      exact ⟨rfl, rfl, rfl, rfl⟩
    · rw [Function.update_of_ne here]
      exact .refl _
  | none =>
    dsimp only at got
    rw [if_neg (not_not.mpr rfl)] at got
    split at got
    · next free =>
      obtain ⟨u, took, pair⟩ := Option.map_eq_some_iff.mp got
      obtain ⟨rfl, rfl⟩ := Prod.mk.inj pair
      obtain ⟨rfl, -⟩ := Prod.mk.inj same
      exact taken (Bool.eq_false_iff.mpr free) took rfl
    · split at got
      · obtain ⟨rfl, rfl⟩ := Prod.mk.inj (Option.some.inj got)
        obtain ⟨rfl, -⟩ := Prod.mk.inj same
        exact ⟨rfl, .none rfl fun b => .refl _⟩
      · next some_ =>
        obtain ⟨u, took, pair⟩ := Option.map_eq_some_iff.mp got
        obtain ⟨rfl, rfl⟩ := Prod.mk.inj pair
        obtain ⟨rfl, -⟩ := Prod.mk.inj same
        rcases freeBin_spec s.map s.map.capTotal with ⟨zero, -⟩ | ⟨-, -, free⟩
        · exact absurd zero some_
        · exact taken free took rfl

/-- **`VD_STRMAP_DEL`** lets go of the bin that was found. -/
theorem strmapDel_bins {result : Bool} (ran : strmapDel A s key = some (s', result)) :
    (findBin s key = some none ∧ s' = s) ∨ ∃ i, findBin s key = some (some i) ∧ s' = unuseBin s i := by
  obtain ⟨⟨t, found⟩, got, same⟩ := Option.map_eq_some_iff.mp ran
  obtain ⟨search, searched, got⟩ := Option.bind_eq_some_iff.mp got
  obtain ⟨rfl, -⟩ := Prod.mk.inj same
  cases search with
  | some i =>
    obtain ⟨rfl, -⟩ := Prod.mk.inj (Option.some.inj got)
    exact Or.inr ⟨i, searched, rfl⟩
  | none =>
    obtain ⟨rfl, -⟩ := Prod.mk.inj (Option.some.inj got)
    exact Or.inl ⟨searched, rfl⟩

end Maps

end Vaudou
