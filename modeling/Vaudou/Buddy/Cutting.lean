/-
**Joining and cutting the blocks of a tiled heap.**

* `Tiles.join` — two free blocks of one size become one.
* `Tiles.halve`, `buddySplit_spec` — a free block is cut in half, and a free block of at least the size
  is cut down to it.
-/

import Vaudou.Buddy.Tiling

namespace Vaudou

open Vaudou.Memory

variable {mem : Mem} {head tail a size k : Nat} {b c : Block} {blocks before rest : List Block}

/-- A free block of at least the size is at the address. -/
def Suits (head : Nat) (blocks : List Block) (size a : Nat) : Prop :=
  ∃ b, (a, b) ∈ placed head blocks ∧ b.free = true ∧ size ≤ b.size

/-! ### Tiled heaps -/

section Tilings

theorem Tiles.here (tiles : Tiles mem head (before ++ b :: rest) tail) :
    Header mem (head + total before) b :=
  tiles.header _ _ (mem_placed_middle head before b rest)

theorem Tiles.ends_at (tiles : Tiles mem head (before ++ b :: rest) tail) :
    head + total before + b.size + total rest = tail := by
  rw [← tiles.ends, total_append, total_cons]
  omega

theorem Tiles.block_le (tiles : Tiles mem head blocks tail) (member : (a, b) ∈ placed head blocks) :
    head ≤ a ∧ a + b.size ≤ tail := by
  rw [← tiles.ends]
  exact placed_inside member

theorem Suits.pos (suits : Suits head blocks size a) (headPos : 0 < head)
    (tiles : Tiles mem head blocks tail) : 0 < a := by
  obtain ⟨b, member, -, -⟩ := suits
  exact headPos.trans_le (tiles.block_le member).1

theorem pair_middle (before : List Block) (b c : Block) (rest : List Block) :
    before ++ b :: c :: rest = before ++ [b, c] ++ rest := by simp

theorem one_middle (before : List Block) (b : Block) (rest : List Block) :
    before ++ b :: rest = before ++ [b] ++ rest := by simp

/-- The place behind a block. -/
theorem place_one (head : Nat) (before : List Block) (b : Block) :
    head + total before + b.size = head + total (before ++ [b]) := by
  rw [total_append, total_cons, total_nil, Nat.add_zero, Nat.add_assoc]

/-- The place behind a pair. -/
theorem place_two (head : Nat) (before : List Block) (b c : Block) :
    head + total before + b.size + c.size = head + total (before ++ [b, c]) := by
  rw [total_append, total_cons, total_cons, total_nil]
  omega

theorem cons_middle (before : List Block) (b c : Block) (rest : List Block) :
    before ++ b :: c :: rest = before ++ [b] ++ c :: rest := by
  rw [List.append_assoc, List.singleton_append]

/-- A pair in front of the tail. -/
theorem Tiles.pair_inside (tiles : Tiles mem head (before ++ b :: c :: rest) tail) :
    head + total before + b.size + (c.size + total rest) = tail ∧ 16 ≤ b.size ∧ 16 ≤ c.size := by
  have ends := tiles.ends_at
  rw [total_cons] at ends
  exact ⟨ends, b.size_ge, c.size_ge⟩

/-- The next buddy is the block after the next one. -/
theorem Tiles.nextBuddy (tiles : Tiles mem head (before ++ rest) tail) (buddy : Nat) :
    ∀ b rest', rest = b :: rest' →
      nextBuddy mem tail (head + total before) buddy = head + total before + b.size := by
  intro b rest' same
  subst same
  have ends := tiles.ends_at
  have := b.size_ge
  rw [Vaudou.nextBuddy, if_pos (by omega), tiles.here.nextBlock]

/-- **Joining a pair.** -/
theorem Tiles.join (tiles : Tiles mem head (before ++ b :: c :: rest) tail) (bounded : tail < 2 ^ 64)
    (freeB : b.free = true) (freeC : c.free = true) (equal : b.order = c.order) :
    Tiles (doubleBlock mem (head + total before)) head (before ++ ⟨b.order + 1, true⟩ :: rest) tail ∧
      Rearranged head mem (before ++ b :: c :: rest) (doubleBlock mem (head + total before))
        (before ++ ⟨b.order + 1, true⟩ :: rest) := by
  have header := tiles.here
  have ends := tiles.ends_at
  rw [total_cons] at ends
  have sizeC : c.size = b.size := by rw [Block.size, Block.size, equal]
  have sizes : b.size * 2 = (Block.mk (b.order + 1) b.free).size := by
    rw [Block.size_succ]
    exact Nat.mul_two _
  have doubled : doubleBlock mem (head + total before) =
      setBlockSize mem (head + total before) (Block.mk (b.order + 1) b.free).size := by
    rw [doubleBlock, header.size, sizes]
  have sum : total [⟨b.order + 1, true⟩] = total [b, c] := by
    rw [total_cons, total_cons, total_cons, ← freeB, ← sizes, sizeC, total_nil]
    omega
  have wide : 16 ≤ total [b, c] := by
    have := b.size_ge
    rw [total_cons]
    omega
  have change : ChangedWithin mem (doubleBlock mem (head + total before)) (head + total before)
      (total [b, c]) := by
    rw [doubled]
    exact (setBlockSize_changedWithin _ _ _).widen (Nat.le_refl _) (by omega)
  rw [pair_middle] at tiles
  rw [pair_middle, one_middle]
  constructor
  · refine tiles.replace sum change fun a d member => ?_
    obtain ⟨rfl, rfl⟩ := Prod.mk.inj (List.mem_singleton.mp member)
    rw [doubled, ← freeB]
    exact header.setBlockSize (by omega)
  · refine Rearranged.of_replace sum change ?_ ?_
    · intro d member
      rcases List.mem_cons.mp member with rfl | member
      · exact freeB
      · rw [List.mem_singleton.mp member]
        exact freeC
    · intro d member
      rw [List.mem_singleton.mp member]

/-- **Cutting a block in half.** -/
theorem Tiles.halve {order : Nat} (tiles : Tiles mem head (before ++ ⟨order + 1, true⟩ :: rest) tail)
    (bounded : tail < 2 ^ 64) {left right : Mem}
    (leftMem : left = setBlockSize mem (head + total before) (Block.mk order true).size)
    (rightMem : right = setBlockIsFree
      (setBlockSize left (head + total before + (Block.mk order true).size) (Block.mk order true).size)
      (head + total before + (Block.mk order true).size) true) :
    Tiles right head (before ++ ⟨order, true⟩ :: ⟨order, true⟩ :: rest) tail ∧
      Rearranged head mem (before ++ ⟨order + 1, true⟩ :: rest) right
        (before ++ ⟨order, true⟩ :: ⟨order, true⟩ :: rest) := by
  have header := tiles.here
  have ends := tiles.ends_at
  have wide := (Block.mk order true).size_ge
  have sizes := Block.size_succ order true
  have sum : total [⟨order, true⟩, ⟨order, true⟩] = total [⟨order + 1, true⟩] := by
    rw [total_cons, total_cons, total_cons, total_nil]
    omega
  have changeLeft : ChangedWithin mem left (head + total before) 16 := by
    rw [leftMem]
    exact setBlockSize_changedWithin _ _ _
  have changeRight : ChangedWithin left right (head + total before + (Block.mk order true).size) 16 := by
    rw [rightMem]
    exact (setBlockSize_changedWithin _ _ _).trans (setBlockIsFree_changedWithin _ _ _)
  have change : ChangedWithin mem right (head + total before) (total [⟨order + 1, true⟩]) := by
    rw [total_cons, total_nil]
    exact (changeLeft.widen (Nat.le_refl _) (by omega)).trans
      (changeRight.widen (by omega) (by omega))
  rw [one_middle] at tiles
  rw [pair_middle, one_middle before ⟨order + 1, true⟩]
  constructor
  · refine tiles.replace sum change fun a d member => ?_
    rcases List.mem_cons.mp member with here | later
    · obtain ⟨rfl, rfl⟩ := Prod.mk.inj here
      refine Header.congr ?_ (changeRight.same (Or.inl (by omega)))
      rw [leftMem]
      exact header.setBlockSize (by show (Block.mk order true).size < 2 ^ 64; omega)
    · obtain ⟨rfl, rfl⟩ := Prod.mk.inj (List.mem_singleton.mp later)
      rw [rightMem]
      refine ⟨?_, blockIsFree_setBlockIsFree⟩
      rw [blockSize_setBlockIsFree, blockSize_setBlockSize (by omega)]
  · refine Rearranged.of_replace sum change ?_ ?_
    · intro d member
      rw [List.mem_singleton.mp member]
    · intro d member
      rcases List.mem_cons.mp member with rfl | member
      · rfl
      · rw [List.mem_singleton.mp member]

end Tilings

/-! ### Splitting -/

section Splitting

/-- The size and the place of the second half of a block. -/
theorem Tiles.halves {half : Nat} (tiles : Tiles mem head (before ++ ⟨half + 1, true⟩ :: rest) tail)
    (bounded : tail < 2 ^ 64) : (Block.mk (half + 1) true).size / 2 = (Block.mk half true).size ∧
      nextBlock (setBlockSize mem (head + total before) (Block.mk half true).size)
        (head + total before) = head + total before + (Block.mk half true).size := by
  have sizes := Block.size_succ half true
  have ends := tiles.ends_at
  have fits : (Block.mk half true).size < 2 ^ 64 := by omega
  refine ⟨by omega, ?_⟩
  rw [nextBlock, blockSize_setBlockSize fits]

/-- **`vd_buddy_alloc__split`, its loop.** A free block of at least the size is cut down to it. -/
theorem splitLoop_spec (k : Nat) : ∀ (fuel : Nat) {mem : Mem} {a : Nat} {blocks : List Block}
    {b : Block}, Tiles mem head blocks tail → tail < 2 ^ 64 → (a, b) ∈ placed head blocks →
    b.free = true → k ≤ b.order → b.order - k < fuel →
    ∃ mem' a' blocks', splitLoop fuel mem a (Block.mk k true).size = some (mem', a') ∧
      Tiles mem' head blocks' tail ∧ Rearranged head mem blocks mem' blocks' ∧
      (a', ⟨k, true⟩) ∈ placed head blocks'
  | 0, _, _, _, _, _, _, _, _, _, enough => absurd enough (Nat.not_lt_zero _)
  | fuel + 1, mem, a, blocks, ⟨order, free⟩, tiles, bounded, member, isFree, large, enough => by
    change free = true at isFree
    change k ≤ order at large
    change order - k < fuel + 1 at enough
    subst isFree
    have header := tiles.header _ _ member
    rw [splitLoop, header.size]
    split
    · rename_i larger
      have order_lt : k < order := by
        by_contra notLess
        have := Block.size_le_iff (b := ⟨order, true⟩) (c := ⟨k, true⟩)
        have := this.mpr (Nat.not_lt.mp notLess)
        omega
      obtain ⟨half, rfl⟩ : ∃ half, order = half + 1 := ⟨order - 1, by omega⟩
      obtain ⟨before, rest, rfl, rfl⟩ := placed_split member
      obtain ⟨halved, right⟩ := tiles.halves bounded
      obtain ⟨cut, rearranged⟩ := tiles.halve bounded rfl rfl
      have there : (head + total before + (Block.mk half true).size, ⟨half, true⟩) ∈
          placed head (before ++ ⟨half, true⟩ :: ⟨half, true⟩ :: rest) := by
        have middle := mem_placed_middle head (before ++ [⟨half, true⟩]) ⟨half, true⟩ rest
        rw [total_append, total_cons, total_nil, List.append_assoc, ← Nat.add_assoc] at middle
        exact middle
      obtain ⟨mem', a', blocks', ran, tiles', rearranged', found⟩ :=
        splitLoop_spec k fuel cut bounded there rfl (by show k ≤ half; omega)
          (by show half - k < fuel; omega)
      refine ⟨mem', a', blocks', ?_, tiles', rearranged.trans rearranged', found⟩
      simp only [halved, right]
      exact ran
    · rename_i notLarger
      have same : order = k := by
        have := Block.size_le_iff (b := ⟨order, true⟩) (c := ⟨k, true⟩)
        have : order ≤ k := this.mp (Nat.not_lt.mp notLarger)
        omega
      subst same
      exact ⟨mem, a, blocks, rfl, tiles, Rearranged.refl head mem blocks, member⟩

/-- **`vd_buddy_alloc__split`** on a free block of at least the size. -/
theorem buddySplit_spec (tiles : Tiles mem head blocks tail) (headPos : 0 < head)
    (bounded : tail < 2 ^ 64) (suits : Suits head blocks (Block.mk k true).size a) :
    ∃ mem' found blocks', buddySplit mem a (Block.mk k true).size = some (mem', found) ∧
      Tiles mem' head blocks' tail ∧ Rearranged head mem blocks mem' blocks' ∧ found ≠ 0 ∧
      (found, ⟨k, true⟩) ∈ placed head blocks' := by
  obtain ⟨b, member, free, large⟩ := suits
  have place := tiles.block_le member
  have wide := (Block.mk k true).size_ge
  have small : b.order < 64 := by
    by_contra high
    have := Nat.pow_le_pow_right (show 0 < 2 by decide) (Nat.not_lt.mp high)
    have : b.size = 16 * 2 ^ b.order := rfl
    omega
  obtain ⟨mem', found, blocks', ran, tiles', rearranged, there⟩ :=
    splitLoop_spec k 65 tiles bounded member free (Block.size_le_iff.mp large) (by omega)
  have header := tiles'.header _ _ there
  have := (tiles'.block_le there).1
  refine ⟨mem', found, blocks', ?_, tiles', rearranged, by omega, there⟩
  rw [buddySplit, if_neg (by omega), ran, Option.map_some]
  show some (if _ ≤ blockSize mem' found then _ else _) = _
  rw [header.size, if_pos (Nat.le_refl _)]

end Splitting

end Vaudou
