/-
**The walks of the buddy allocator with checked reads.**

The functions here are those of `vd_buddy_alloc__find` and `vd_buddy_alloc__coalescence` once more, read
by read: each `block->size` and `block->is_free` is looked up in the order of the source, with `&&` and
`||` cut short as in C, and a header that is not within the heap makes the whole function `none`. The
outer loop of the coalescing counts its passes.

* `checkedFindLoop_walk`, `checkedPass_walk` — on a tiling both walks end, without such a read.
* `checkedCoalescenceLoop_walk` — there are at most as many passes as blocks.
* `buddyWalks_end` — the two functions.
-/

import Vaudou.Buddy.Walks

namespace Vaudou

open Vaudou.Memory

/-! ### Checked reads -/

section Checked

variable (tail : Nat) (mem : Mem)

/-- `block->size`, of a header in front of `tail`. -/
def checkedSize (block : Nat) : Option Nat :=
  if block + buddyBlockSize ≤ tail then some (blockSize mem block) else none

/-- `block->is_free`, of a header in front of `tail`. -/
def checkedIsFree (block : Nat) : Option Bool :=
  if block + buddyBlockSize ≤ tail then some (blockIsFree mem block) else none

/-- `vd_buddy_alloc__next_block`. -/
def checkedNext (block : Nat) : Option Nat := (checkedSize tail mem block).map (block + ·)

/-- `block->is_free && buddy->is_free && block->size == buddy->size`. -/
def checkedJoins (block buddy : Nat) : Option Bool :=
  (checkedIsFree tail mem block).bind fun free =>
    if free then
      (checkedIsFree tail mem buddy).bind fun free =>
        if free then
          (checkedSize tail mem block).bind fun size =>
            (checkedSize tail mem buddy).map fun size' => size == size'
        else some false
    else some false

/-- `size <= block->size && (best == 0 || closer)`, and `best` after it; `closer` compares the two
sizes. -/
def checkedBest (closer : Nat → Nat → Bool) (size block best : Nat) : Option Nat :=
  (checkedSize tail mem block).bind fun found =>
    if size ≤ found then
      if best = 0 then some block
      else
        (checkedSize tail mem block).bind fun found =>
          (checkedSize tail mem best).map fun least => if closer found least then block else best
    else some best

/-- The same behind `block->is_free &&`. -/
def checkedFreeBest (closer : Nat → Nat → Bool) (size block best : Nat) : Option Nat :=
  (checkedIsFree tail mem block).bind fun free =>
    if free then checkedBest tail mem closer size block best else some best

/-- The buddy of the next block, unless that is past the end. -/
def checkedNextBuddy (block buddy : Nat) : Option Nat :=
  if block < tail then checkedNext tail mem block else some buddy

end Checked

/-- The loop of `vd_buddy_alloc__find`. -/
def checkedFindLoop (tail size : Nat) : (fuel : Nat) → Mem → (block buddy best : Nat) →
    Option (Mem × Nat)
  | 0, _, _, _, _ => none
  | fuel + 1, mem, block, buddy, best =>
    if block < tail ∧ buddy < tail then
      (checkedJoins tail mem block buddy).bind fun joined =>
        if joined then
          (checkedSize tail mem block).bind fun half =>
            let mem := setBlockSize mem block (half * 2)
            (checkedBest tail mem (· ≤ ·) size block best).bind fun best =>
              (checkedNext tail mem buddy).bind fun next =>
                (checkedNextBuddy tail mem next buddy).bind fun buddy =>
                  checkedFindLoop tail size fuel mem next buddy best
        else
          (checkedFreeBest tail mem (· ≤ ·) size block best).bind fun best =>
            (checkedFreeBest tail mem (· < ·) size buddy best).bind fun best =>
              (checkedSize tail mem block).bind fun first =>
                (checkedSize tail mem buddy).bind fun second =>
                  if first ≤ second then
                    (checkedNext tail mem buddy).bind fun next =>
                      (checkedNextBuddy tail mem next buddy).bind fun buddy =>
                        checkedFindLoop tail size fuel mem next buddy best
                  else
                    (checkedNext tail mem buddy).bind fun next =>
                      checkedFindLoop tail size fuel mem buddy next best
    else some (mem, best)

/-- `vd_buddy_alloc__find`; the block that is found is split behind the walk. -/
def checkedFind (mem : Mem) (head tail size : Nat) : Option (Mem × Nat) :=
  (checkedNext tail mem head).bind fun buddy =>
    (if buddy = tail then checkedIsFree tail mem head else some false).bind fun alone =>
      if alone then buddySplit mem head size
      else (checkedFindLoop tail size (tail - head + 1) mem head buddy 0).bind fun found =>
        if found.2 ≠ 0 then buddySplit found.1 found.2 size else some (found.1, 0)

/-- One pass of `vd_buddy_alloc__coalescence`, and whether it ends the loop. -/
def checkedPass (tail : Nat) : (fuel : Nat) → Mem → (block buddy : Nat) → (noCoalescence : Bool) →
    Option (Mem × Bool)
  | 0, _, _, _, _ => none
  | fuel + 1, mem, block, buddy, noCoalescence =>
    if block < tail ∧ buddy < tail then
      (checkedJoins tail mem block buddy).bind fun joined =>
        if joined then
          (checkedSize tail mem block).bind fun half =>
            let mem := setBlockSize mem block (half * 2)
            (checkedNext tail mem block).bind fun next =>
              (checkedNextBuddy tail mem next buddy).bind fun buddy =>
                checkedPass tail fuel mem next buddy (if next < tail then false else noCoalescence)
        else
          (checkedSize tail mem block).bind fun first =>
            (checkedSize tail mem buddy).bind fun second =>
              if first < second then
                (checkedNext tail mem buddy).bind fun next =>
                  checkedPass tail fuel mem buddy next noCoalescence
              else
                (checkedNext tail mem buddy).bind fun next =>
                  (checkedNextBuddy tail mem next buddy).bind fun buddy =>
                    checkedPass tail fuel mem next buddy noCoalescence
    else some (mem, noCoalescence)

/-- The outer loop of `vd_buddy_alloc__coalescence`, with the number of its passes. -/
def checkedCoalescenceLoop (head tail : Nat) : (fuel : Nat) → Mem → Option (Mem × Nat)
  | 0, _ => none
  | fuel + 1, mem =>
    (checkedNext tail mem head).bind fun buddy =>
      (checkedPass tail (tail - head + 1) mem head buddy true).bind fun pass =>
        if pass.2 then some (pass.1, 1)
        else (checkedCoalescenceLoop head tail fuel pass.1).map fun later => (later.1, later.2 + 1)

/-- `vd_buddy_alloc__coalescence`. -/
def checkedCoalescence (mem : Mem) (head tail : Nat) : Option (Mem × Nat) :=
  checkedCoalescenceLoop head tail (tail - head + 1) mem

variable {mem : Mem} {head tail size block buddy best : Nat} {b c : Block} {blocks before rest : List Block}

/-! ### Reads within the heap -/

section Reads

/-- `best` is null, or has its header in front of `tail`. -/
def BestInside (tail best : Nat) : Prop := best = 0 ∨ best + buddyBlockSize ≤ tail

variable (inside : block + buddyBlockSize ≤ tail)
include inside

theorem checkedSize_eq : checkedSize tail mem block = some (blockSize mem block) := if_pos inside

theorem checkedIsFree_eq : checkedIsFree tail mem block = some (blockIsFree mem block) := if_pos inside

theorem checkedNext_eq : checkedNext tail mem block = some (nextBlock mem block) := by
  rw [checkedNext, checkedSize_eq inside]
  rfl

theorem checkedJoins_eq (inside' : buddy + buddyBlockSize ≤ tail) :
    checkedJoins tail mem block buddy = some (decide (joins mem block buddy)) := by
  rw [checkedJoins, checkedIsFree_eq inside, checkedIsFree_eq inside', checkedSize_eq inside,
    checkedSize_eq inside']
  simp only [Option.bind_some, Option.map_some, joins]
  by_cases free : blockIsFree mem block = true
  · by_cases free' : blockIsFree mem buddy = true
    · simp [free, free', beq_eq_decide]
    · simp [free, free']
  · simp [free]

theorem checkedBest_eq (closer : Nat → Nat → Bool) (bestInside : BestInside tail best) :
    checkedBest tail mem closer size block best =
      some (if size ≤ blockSize mem block ∧
        (best = 0 ∨ closer (blockSize mem block) (blockSize mem best) = true) then block else best) := by
  rw [checkedBest, checkedSize_eq inside, Option.bind_some, Option.bind_some]
  by_cases large : size ≤ blockSize mem block
  · rw [if_pos large]
    rcases bestInside with zero | bestInside
    · rw [if_pos zero, if_pos ⟨large, Or.inl zero⟩]
    · rw [checkedSize_eq bestInside, Option.map_some]
      by_cases zero : best = 0
      · rw [if_pos zero, if_pos ⟨large, Or.inl zero⟩]
      · simp only [zero, large, if_false, true_and, false_or]
  · rw [if_neg large, if_neg (fun both => large both.1)]

theorem checkedBest_joined (bestInside : BestInside tail best) :
    checkedBest tail mem (· ≤ ·) size block best = some (bestJoined mem size block best) := by
  rw [checkedBest_eq inside _ bestInside]
  simp only [bestJoined, decide_eq_true_eq]

theorem checkedFreeBest_block (bestInside : BestInside tail best) :
    checkedFreeBest tail mem (· ≤ ·) size block best = some (bestBlock mem size block best) := by
  rw [checkedFreeBest, checkedIsFree_eq inside, Option.bind_some, checkedBest_eq inside _ bestInside,
    bestBlock]
  cases blockIsFree mem block <;> simp

theorem checkedFreeBest_buddy (bestInside : BestInside tail best) :
    checkedFreeBest tail mem (· < ·) size block best = some (bestBuddy mem size block best) := by
  rw [checkedFreeBest, checkedIsFree_eq inside, Option.bind_some, checkedBest_eq inside _ bestInside,
    bestBuddy]
  cases blockIsFree mem block <;> simp

theorem BestInside.afterJoin (bestInside : BestInside tail best) (mem : Mem) (size : Nat) :
    BestInside tail (bestJoined mem size block best) := by
  unfold bestJoined
  split
  · exact Or.inr inside
  · exact bestInside

theorem BestInside.afterBlock (bestInside : BestInside tail best) (mem : Mem) (size : Nat) :
    BestInside tail (bestBlock mem size block best) := by
  unfold bestBlock
  split
  · exact Or.inr inside
  · exact bestInside

theorem BestInside.afterBuddy (bestInside : BestInside tail best) (mem : Mem) (size : Nat) :
    BestInside tail (bestBuddy mem size block best) := by
  unfold bestBuddy
  split
  · exact Or.inr inside
  · exact bestInside

end Reads

/-- **What is in front of the tail in a tiling has its header there.** -/
theorem Tiles.checkedNextBuddy (tiles : Tiles mem head (before ++ rest) tail) (buddy : Nat) :
    Vaudou.checkedNextBuddy tail mem (head + total before) buddy =
      some (Vaudou.nextBuddy mem tail (head + total before) buddy) := by
  unfold Vaudou.checkedNextBuddy Vaudou.nextBuddy
  split
  next more =>
    cases rest with
    | nil =>
      have ends := tiles.ends
      rw [List.append_nil] at ends
      omega
    | cons b rest =>
      have ends := tiles.ends_at
      have wide := b.size_ge
      exact checkedNext_eq (by rw [buddyBlockSize]; omega)
  next => rfl

/-! ### Pairs -/

section Pairs

/-- Both headers of a pair are in front of the tail. -/
theorem Tiles.pair_headers (tiles : Tiles mem head (before ++ b :: c :: rest) tail) :
    head + total before + buddyBlockSize ≤ tail ∧
      head + total before + b.size + buddyBlockSize ≤ tail := by
  obtain ⟨ends, wideB, wideC⟩ := tiles.pair_inside
  rw [buddyBlockSize]
  omega

/-- Behind the pair. -/
theorem Tiles.skip_place (tiles : Tiles mem head (before ++ b :: c :: rest) tail) :
    nextBlock mem (head + total before + b.size) = head + total (before ++ [b, c]) := by
  rw [tiles.second.nextBlock, place_two]

/-- **A pair that is joined**: the tiling, and the places behind the first and behind the second header. -/
theorem Tiles.join_place (tiles : Tiles mem head (before ++ b :: c :: rest) tail)
    (bounded : tail < 2 ^ 64) (joined : joins mem (head + total before) (head + total before + b.size)) :
    Tiles (doubleBlock mem (head + total before)) head (before ++ [⟨b.order + 1, true⟩] ++ rest) tail ∧
      nextBlock (doubleBlock mem (head + total before)) (head + total before) =
        head + total (before ++ [⟨b.order + 1, true⟩]) ∧
      nextBlock (doubleBlock mem (head + total before)) (head + total before + b.size) =
        head + total (before ++ [⟨b.order + 1, true⟩]) := by
  obtain ⟨freeB, freeC, equal⟩ := (joins_iff tiles.here tiles.second).mp joined
  obtain ⟨tiles', -⟩ := tiles.join bounded freeB freeC equal
  have wide := b.size_ge
  have sizes : b.size = c.size := by rw [Block.size, Block.size, equal]
  have doubled : (Block.mk (b.order + 1) true).size = b.size + b.size := Block.size_succ _ _
  have second := tiles.second.congr
    ((doubleBlock_changedWithin mem (head + total before)).same (Or.inr (by omega)))
  refine ⟨?_, ?_, ?_⟩
  · rwa [← one_middle]
  · rw [tiles'.here.nextBlock, place_one]
  · rw [second.nextBlock, ← place_one, doubled]
    omega

end Pairs

/-! ### The walks -/

section Walks

/-- **The walk of `vd_buddy_alloc__find`**, read by read: it ends, and nothing it reads is outside of the
heap. -/
theorem checkedFindLoop_walk (bounded : tail < 2 ^ 64) (size : Nat) :
    ∀ (fuel : Nat) (mem : Mem) (before rest : List Block) (buddy best : Nat),
      Tiles mem head (before ++ rest) tail → rest.length < fuel →
      (∀ b rest', rest = b :: rest' → buddy = head + total before + b.size) → BestInside tail best →
      ∃ result, checkedFindLoop tail size fuel mem (head + total before) buddy best = some result ∧
        findLoop tail size fuel mem (head + total before) buddy best = some result
  | 0, _, _, _, _, _, _, enough, _, _ => absurd enough (Nat.not_lt_zero _)
  | fuel + 1, mem, before, [], buddy, best, tiles, _, next, _ => by
    refine ⟨(mem, best), ?_, findLoop_end (by simp) tiles next⟩
    rw [checkedFindLoop, if_neg (tiles.walk_ends (by simp) next)]
  | fuel + 1, mem, before, [b], buddy, best, tiles, _, next, _ => by
    refine ⟨(mem, best), ?_, findLoop_end (by simp) tiles next⟩
    rw [checkedFindLoop, if_neg (tiles.walk_ends (by simp) next)]
  | fuel + 1, mem, before, b :: c :: rest, buddy, best, tiles, enough, next, bestInside => by
    have buddyAt := next b (c :: rest) rfl
    subst buddyAt
    obtain ⟨insideB, insideC⟩ := tiles.pair_headers
    have header : 0 < buddyBlockSize := by decide
    have fewer : rest.length + 1 < fuel := Nat.lt_of_succ_lt_succ enough
    rw [checkedFindLoop, findLoop, if_pos (by omega), if_pos (by omega), checkedJoins_eq insideB insideC,
      Option.bind_some]
    by_cases joined : joins mem (head + total before) (head + total before + b.size)
    · obtain ⟨tiles', -, place⟩ := tiles.join_place bounded joined
      rw [if_pos (decide_eq_true joined), if_pos joined, checkedSize_eq insideB, Option.bind_some]
      change ∃ result, ((checkedBest tail (doubleBlock mem (head + total before)) _ _ _ _).bind _) = _ ∧ _
      rw [checkedBest_joined insideB bestInside, Option.bind_some]
      dsimp only
      change ∃ result, ((checkedNext tail (doubleBlock mem (head + total before)) _).bind _) = _ ∧ _
      rw [checkedNext_eq insideC, Option.bind_some, place]
      change ∃ result, ((Vaudou.checkedNextBuddy tail (doubleBlock mem (head + total before)) _ _).bind _) = _ ∧ _
      rw [tiles'.checkedNextBuddy, Option.bind_some]
      exact checkedFindLoop_walk bounded size fuel _ _ rest _ _ tiles' (by omega) (tiles'.nextBuddy _)
        (bestInside.afterJoin insideB _ size)
    · have bestInside' := (bestInside.afterBlock insideB mem size).afterBuddy insideC mem size
      rw [if_neg (by simpa using joined), if_neg joined, checkedFreeBest_block insideB bestInside,
        Option.bind_some, checkedFreeBest_buddy insideC (bestInside.afterBlock insideB mem size),
        Option.bind_some, checkedSize_eq insideB, Option.bind_some, checkedSize_eq insideC,
        Option.bind_some, checkedNext_eq insideC]
      dsimp only
      by_cases skips : blockSize mem (head + total before) ≤ blockSize mem (head + total before + b.size)
      · have place := tiles.skip_place
        rw [pair_middle] at tiles
        rw [if_pos skips, if_pos skips, Option.bind_some, place, tiles.checkedNextBuddy, Option.bind_some]
        exact checkedFindLoop_walk bounded size fuel _ _ rest _ _ tiles (by omega) (tiles.nextBuddy _)
          bestInside'
      · have second := tiles.second.nextBlock
        rw [cons_middle] at tiles
        rw [place_one] at bestInside' second
        rw [if_neg skips, if_neg skips, Option.bind_some, place_one, second]
        refine checkedFindLoop_walk bounded size fuel _ _ (c :: rest) _ _ tiles
          (by rw [List.length_cons]; omega) (fun d rest' same => ?_) bestInside'
        cases same
        rfl

/-- **A pass of `vd_buddy_alloc__coalescence`**, read by read. -/
theorem checkedPass_walk (bounded : tail < 2 ^ 64) :
    ∀ (fuel : Nat) (mem : Mem) (before rest : List Block) (buddy : Nat) (noCoalescence : Bool),
      Tiles mem head (before ++ rest) tail → rest.length < fuel →
      (∀ b rest', rest = b :: rest' → buddy = head + total before + b.size) →
      checkedPass tail fuel mem (head + total before) buddy noCoalescence =
        coalescencePass tail fuel mem (head + total before) buddy noCoalescence
  | 0, _, _, _, _, _, _, enough, _ => absurd enough (Nat.not_lt_zero _)
  | fuel + 1, mem, before, [], buddy, noCoalescence, tiles, _, next => by
    rw [coalescencePass_end (by simp) tiles next, checkedPass, if_neg (tiles.walk_ends (by simp) next)]
  | fuel + 1, mem, before, [b], buddy, noCoalescence, tiles, _, next => by
    rw [coalescencePass_end (by simp) tiles next, checkedPass, if_neg (tiles.walk_ends (by simp) next)]
  | fuel + 1, mem, before, b :: c :: rest, buddy, noCoalescence, tiles, enough, next => by
    have buddyAt := next b (c :: rest) rfl
    subst buddyAt
    obtain ⟨insideB, insideC⟩ := tiles.pair_headers
    have header : 0 < buddyBlockSize := by decide
    have fewer : rest.length + 1 < fuel := Nat.lt_of_succ_lt_succ enough
    rw [checkedPass, coalescencePass, if_pos (by omega), if_pos (by omega), checkedJoins_eq insideB insideC,
      Option.bind_some]
    by_cases joined : joins mem (head + total before) (head + total before + b.size)
    · obtain ⟨tiles', place, -⟩ := tiles.join_place bounded joined
      rw [if_pos (decide_eq_true joined), if_pos joined, checkedSize_eq insideB, Option.bind_some]
      change ((checkedNext tail (doubleBlock mem (head + total before)) _).bind _) = _
      rw [checkedNext_eq insideB, Option.bind_some]
      dsimp only
      rw [place]
      change ((Vaudou.checkedNextBuddy tail (doubleBlock mem (head + total before)) _ _).bind _) = _
      rw [tiles'.checkedNextBuddy, Option.bind_some]
      exact checkedPass_walk bounded fuel _ _ rest _ _ tiles' (by omega) (tiles'.nextBuddy _)
    · rw [if_neg (by simpa using joined), if_neg joined, checkedSize_eq insideB, Option.bind_some,
        checkedSize_eq insideC, Option.bind_some, checkedNext_eq insideC]
      dsimp only
      by_cases steps : blockSize mem (head + total before) < blockSize mem (head + total before + b.size)
      · have second := tiles.second.nextBlock
        rw [cons_middle] at tiles
        rw [if_pos steps, if_pos steps, Option.bind_some, second, place_one]
        refine checkedPass_walk bounded fuel _ _ (c :: rest) _ _ tiles
          (by rw [List.length_cons]; omega) (fun d rest' same => ?_)
        cases same
        rfl
      · have place := tiles.skip_place
        rw [pair_middle] at tiles
        rw [if_neg steps, if_neg steps, Option.bind_some, place, tiles.checkedNextBuddy, Option.bind_some]
        exact checkedPass_walk bounded fuel _ _ rest _ _ tiles (by omega) (tiles.nextBuddy _)

/-- **The loop of `vd_buddy_alloc__coalescence`** makes at most as many passes as there are blocks: each
pass but the last one joins two of them. -/
theorem checkedCoalescenceLoop_walk (bounded : tail < 2 ^ 64) :
    ∀ (fuel : Nat) (mem : Mem) (blocks : List Block), Tiles mem head blocks tail → blocks ≠ [] →
      blocks.length < fuel →
      ∃ mem' passes, checkedCoalescenceLoop head tail fuel mem = some (mem', passes) ∧
        coalescenceLoop head tail fuel mem = some mem' ∧ passes ≤ blocks.length
  | 0, _, _, _, _, enough => absurd enough (Nat.not_lt_zero _)
  | fuel + 1, mem, [], _, nonempty, _ => absurd rfl nonempty
  | fuel + 1, mem, b :: rest, tiles, nonempty, enough => by
    have header : Header mem head b := tiles.header _ _ List.mem_cons_self
    have inside := (tiles.block_le (a := head) (b := b) List.mem_cons_self).2
    have wide := b.size_ge
    have first : ∀ c rest', b :: rest = c :: rest' → head + b.size = head + total [] + c.size :=
      fun c rest' same => by cases same; rfl
    obtain ⟨mem', ran, left⟩ := coalescencePass_walk bounded (tail - head + 1) mem [] (b :: rest)
      (head + b.size) true tiles tiles.length_lt first
    have tiles' : Tiles mem' head (passed (b :: rest)) tail := left
    have ran : coalescencePass tail (tail - head + 1) mem head (head + b.size) true =
      some (mem', !passesAgain (b :: rest)) := ran
    have checked : checkedPass tail (tail - head + 1) mem head (head + b.size) true =
        some (mem', !passesAgain (b :: rest)) :=
      (checkedPass_walk bounded _ mem [] (b :: rest) _ true tiles tiles.length_lt first).trans ran
    rw [checkedCoalescenceLoop, coalescenceLoop, checkedNext_eq (by rw [buddyBlockSize]; omega),
      header.nextBlock, Option.bind_some, checked, ran, Option.bind_some, Option.bind_some]
    by_cases again : passesAgain (b :: rest) = true
    · have shorter := passed_shorter again
      obtain ⟨last, passes, later, later', few⟩ :=
        checkedCoalescenceLoop_walk bounded fuel mem' _ tiles' (passed_ne_nil nonempty) (by omega)
      rw [again]
      refine ⟨last, passes + 1, ?_, later', by omega⟩
      show (checkedCoalescenceLoop head tail fuel mem').map _ = _
      rw [later]
      rfl
    · rw [Bool.not_eq_true] at again
      rw [again]
      exact ⟨mem', 1, rfl, rfl, Nat.succ_le_succ (Nat.zero_le _)⟩

/-- **The splitting ends** on any memory: each round halves a size. -/
theorem splitLoop_ends (size k : Nat) (mem : Mem) (block : Nat) (within : k ≤ 64)
    (small : blockSize mem block < 2 ^ k) : ∃ result, splitLoop (k + 1) mem block size = some result := by
  induction k generalizing mem block with
  | zero =>
    rw [splitLoop, if_neg (by omega)]
    exact ⟨_, rfl⟩
  | succ k ih =>
    rw [splitLoop]
    by_cases larger : size < blockSize mem block
    · have half : blockSize mem block / 2 < 2 ^ k := by
        rw [pow_succ] at small
        omega
      have word : 2 ^ k ≤ 2 ^ 64 := PowerOfTwo.two_pow_le_iff.mpr (by omega)
      rw [if_pos larger]
      refine ih _ _ (by omega) ?_
      rw [blockSize_setBlockIsFree, blockSize_setBlockSize (half.trans_le word)]
      exact half
    · exact ⟨_, if_neg larger⟩

theorem buddySplit_ends (mem : Mem) (block size : Nat) : ∃ result, buddySplit mem block size = some result := by
  obtain ⟨result, ran⟩ := splitLoop_ends size 64 mem block le_rfl (readNat_lt mem block 8)
  unfold buddySplit
  split
  · exact ⟨_, rfl⟩
  · rw [ran]
    exact ⟨_, rfl⟩

/-- **`vd_buddy_alloc__find`**, for any size. -/
theorem checkedFind_walk (tiles : Tiles mem head (b :: rest) tail) (bounded : tail < 2 ^ 64) (size : Nat) :
    ∃ result, checkedFind mem head tail size = some result ∧
      buddyFind mem head tail size = some result := by
  have header : Header mem head b := tiles.header _ _ List.mem_cons_self
  have inside := (tiles.block_le (a := head) (b := b) List.mem_cons_self).2
  have wide := b.size_ge
  have headerInside : head + buddyBlockSize ≤ tail := by
    rw [buddyBlockSize]
    omega
  rw [checkedFind, buddyFind, checkedNext_eq headerInside, header.nextBlock, Option.bind_some,
    checkedIsFree_eq headerInside]
  by_cases alone : head + b.size = tail ∧ blockIsFree mem head = true
  · obtain ⟨result, split⟩ := buddySplit_ends mem head size
    rw [if_pos alone.1, if_pos alone, Option.bind_some, if_pos alone.2]
    exact ⟨result, split, split⟩
  · have walks : (if head + b.size = tail then some (blockIsFree mem head) else some false) = some false := by
      by_cases last : head + b.size = tail
      · rw [if_pos last, Bool.eq_false_of_not_eq_true fun free => alone ⟨last, free⟩]
      · rw [if_neg last]
    obtain ⟨⟨mem', best⟩, checked, ran⟩ := checkedFindLoop_walk bounded size (tail - head + 1) mem []
      (b :: rest) (head + b.size) 0 tiles tiles.length_lt (fun c rest' same => by cases same; rfl)
      (Or.inl rfl)
    have checked : checkedFindLoop tail size (tail - head + 1) mem head (head + b.size) 0 =
      some (mem', best) := checked
    have ran : findLoop tail size (tail - head + 1) mem head (head + b.size) 0 = some (mem', best) := ran
    rw [walks, Option.bind_some, if_neg Bool.false_ne_true, if_neg alone, checked, ran, Option.bind_some]
    by_cases found : best = 0
    · exact ⟨(mem', 0), if_neg (not_not_intro found), if_neg (not_not_intro found)⟩
    · obtain ⟨result, split⟩ := buddySplit_ends mem' best size
      exact ⟨result, (if_pos found).trans split, (if_pos found).trans split⟩

/-- **Searching and coalescing end on every tiled heap.** With every read of a header checked, both come
back with what they come back with unchecked, and the coalescing makes at most as many passes as there
are blocks. The block at `head` is there: both functions read its header first of all. -/
theorem buddyWalks_end (tiles : Tiles mem head (b :: rest) tail) (bounded : tail < 2 ^ 64) :
    (∀ size, ∃ result, checkedFind mem head tail size = some result ∧
        buddyFind mem head tail size = some result) ∧
      ∃ mem' passes, checkedCoalescence mem head tail = some (mem', passes) ∧
        buddyCoalescence mem head tail = some mem' ∧ passes ≤ (b :: rest).length :=
  ⟨checkedFind_walk tiles bounded,
    checkedCoalescenceLoop_walk bounded _ mem _ tiles (List.cons_ne_nil b rest) tiles.length_lt⟩

/-- The headers of a list of blocks. -/
def headersOf (head : Nat) (blocks : List Block) : Mem :=
  (placed head blocks).foldl (fun mem place =>
    setBlockIsFree (setBlockSize mem place.1 place.2.size) place.1 place.2.free) fun _ => 0

/-- Two free blocks of 16 bytes, a used one of 32 and two free ones of 32. -/
def fiveBlocks : List Block := [⟨0, true⟩, ⟨0, true⟩, ⟨1, false⟩, ⟨1, true⟩, ⟨1, true⟩]

/-- Both functions on the five blocks. -/
theorem buddyWalks_end_five :
    (∀ size, ∃ result, checkedFind (headersOf 16 fiveBlocks) 16 144 size = some result ∧
        buddyFind (headersOf 16 fiveBlocks) 16 144 size = some result) ∧
      ∃ mem' passes, checkedCoalescence (headersOf 16 fiveBlocks) 16 144 = some (mem', passes) ∧
        buddyCoalescence (headersOf 16 fiveBlocks) 16 144 = some mem' ∧ passes ≤ 5 :=
  have tiles : Tiles (headersOf 16 fiveBlocks) 16 fiveBlocks 144 := by decide +kernel
  buddyWalks_end tiles (by norm_num)

/-- The second pass joins the last two blocks, which leaves the flag as it is. -/
example : (checkedCoalescence (headersOf 16 fiveBlocks) 16 144).map Prod.snd = some 2 := by decide +kernel

end Walks

end Vaudou
