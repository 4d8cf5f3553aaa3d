/-
**What `copy_key` stores, `check_key` tells apart.**

`copyKeyBin` is `copy_key` on a single bin, with the allocator that it finds in front of it; in a map that
is the allocator of the map or undefined behaviour (`copyKey_eq`). The bin may have been used before: what
is left of an older key is behind the length of the new one, or in a block that is not looked at.

* `checkKey_copyKeyBin_iff` — after a copy exactly the copied key checks.
-/

import Vaudou.StrMap.Lookup

namespace Vaudou

open Vaudou.Memory

/-- `copy_key`, with the allocator `A` in front of the bin. -/
def copyKeyBin (A : BlockAlloc) (heap : BlockHeap) (bin : StrBin) (key : List UInt8) :
    Option (StrBin × BlockHeap) :=
  let bin := { bin with
    keyLen := key.length
    keyPrefix := key.take 43 ++ bin.keyPrefix.drop (min 43 key.length) }
  if 43 < key.length then
    (A.alloc heap (key.length - 43)).map fun granted =>
      ({ bin with keyRest := granted.2 },
        { granted.1 with mem := granted.1.mem.store granted.2 (key.drop 43) })
  else some (bin, heap)

variable {A : BlockAlloc} {heap heap' : BlockHeap} {bin bin' : StrBin} {key : List UInt8}

/-- `copy_key` into a bin of a map. -/
theorem copyKey_eq (A : BlockAlloc) (s : StrMapState) (key : List UInt8) (i : Nat) :
    copyKey A s key i =
      if 43 < key.length ∧ s.map.headerAllocator i ≠ s.map.allocator then none
      else (copyKeyBin A s.heap (s.map.bins i) key).map fun copied =>
        { s with
          map := { s.map with bins := Function.update s.map.bins i copied.1 }
          heap := copied.2 } := by
  unfold copyKey copyKeyBin
  by_cases long : 43 < key.length
  · by_cases other : s.map.headerAllocator i ≠ s.map.allocator
    · simp only [if_pos long, if_pos other, if_pos (And.intro long other)]
    · simp only [if_pos long, if_neg other, if_neg fun both : _ ∧ _ => other both.2, Option.map_map]
      rfl
  · simp only [if_neg long, if_neg fun both : _ ∧ _ => long both.1, Option.map_some]

/-- **`copy_key` stores the key** in any bin. -/
theorem copyKeyBin_keyAt (copied : copyKeyBin A heap bin key = some (bin', heap')) :
    KeyAt heap' bin' key := by
  unfold copyKeyBin at copied
  simp only at copied
  split at copied
  · next long =>
    obtain ⟨⟨granted, p⟩, alloc, same⟩ := Option.map_eq_some_iff.mp copied
    obtain ⟨rfl, rfl⟩ := Prod.mk.inj same
    have tail : (key.drop 43).length = key.length - 43 := List.length_drop
    refine ⟨rfl, take_copied key bin.keyPrefix, fun _ => ⟨?_, ?_⟩⟩
    · have stored := load_store_same granted.mem p (key.drop 43)
      rwa [tail] at stored
    · exact fun x low high => (BlockAlloc.owns alloc x low high).mono (List.Subset.refl _)
  · next short =>
    obtain ⟨rfl, rfl⟩ := Prod.mk.inj (Option.some.inj copied)
    exact ⟨rfl, take_copied key bin.keyPrefix, fun long => absurd long short⟩

/-- **Stored keys compare exactly.** Into any bin, whatever it held before, any key is copied whose tail is
granted, and afterwards a string checks exactly if it is that key. -/
theorem checkKey_copyKeyBin_iff (A : BlockAlloc) (heap : BlockHeap) (bin : StrBin) (a : List UInt8)
    (granted : 43 < a.length → (A.alloc heap (a.length - 43)).isSome = true) :
    ∃ bin' heap', copyKeyBin A heap bin a = some (bin', heap') ∧
      ∀ b, checkKey heap' b bin' = true ↔ b = a := by
  have defined : (copyKeyBin A heap bin a).isSome = true := by
    unfold copyKeyBin
    split
    · next long =>
      rw [Option.isSome_map]
      exact granted long
    · rfl
  obtain ⟨⟨bin', heap'⟩, copied⟩ := Option.isSome_iff_exists.mp defined
  exact ⟨bin', heap', copied, fun b => (copyKeyBin_keyAt copied).checkKey_iff⟩

/-- A key with a tail of one byte, in a bin that held a longer one. -/
theorem checkKey_copyKeyBin_iff_tail :
    ∃ bin' heap', copyKeyBin .bump ⟨fun _ => 0, [(8, 57)]⟩
        ⟨none, 100, true, 8, List.replicate 43 98, []⟩ (List.replicate 44 97) = some (bin', heap') ∧
      ∀ b, checkKey heap' b bin' = true ↔ b = List.replicate 44 97 :=
  checkKey_copyKeyBin_iff .bump ⟨fun _ => 0, [(8, 57)]⟩ ⟨none, 100, true, 8, List.replicate 43 98, []⟩
    (List.replicate 44 97) fun _ => by decide

end Vaudou
