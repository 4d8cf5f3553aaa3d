/-
**Searching and coalescing on a tiled heap.**

Both walks end on every tiling, leave a tiling, and only join free blocks (`findLoop_spec`,
`coalescencePass_spec`). What the search finds is a free block of exactly the size asked for
(`buddyFind_spec`).

`inspected` is the part of a tiling that the walk of the search looks at. The walk goes by pairs, past
both blocks when the first is not larger and past one when it is, so that a last block that is reached
by a step past a pair is left out.
-/

import Vaudou.Buddy.Cutting

namespace Vaudou

open Vaudou.Memory

variable {mem : Mem} {head tail a size k : Nat} {b c : Block} {blocks before rest : List Block}

/-- The blocks that the walk looks at. -/
def inspected : List Block → List Block
  | [] => []
  | [_] => []
  | b :: c :: rest =>
    b :: c :: if b.size ≤ c.size then inspected rest else inspected (c :: rest)

/-- The blocks that the search looks at: the only block of a heap is looked at in any case. -/
def met : List Block → List Block
  | [b] => [b]
  | blocks => inspected blocks

/-! ### The best block so far -/

/-- Null, or a free block of at least the size, not beyond the bound. -/
def BestSoFar (head : Nat) (blocks : List Block) (size best bound : Nat) : Prop :=
  best = 0 ∨ ∃ b, (best, b) ∈ placed head blocks ∧ b.free = true ∧ size ≤ b.size ∧ best ≤ bound

section Best

variable {best bound buddy : Nat}

theorem BestSoFar.mono {bound' : Nat} (soFar : BestSoFar head blocks size best bound)
    (further : bound ≤ bound') : BestSoFar head blocks size best bound' := by
  rcases soFar with none | ⟨b, member, free, large, within⟩
  · exact Or.inl none
  · exact Or.inr ⟨b, member, free, large, within.trans further⟩

/-- The address of a look joins the candidates. -/
theorem bestBlock_soFar (soFar : BestSoFar head blocks size best a)
    (member : (a, b) ∈ placed head blocks) (header : Header mem a b) :
    BestSoFar head blocks size (bestBlock mem size a best) a := by
  unfold bestBlock
  split
  · rename_i taken
    rw [header.free, header.size] at taken
    exact Or.inr ⟨b, member, taken.1, taken.2.1, Nat.le_refl a⟩
  · exact soFar

theorem bestBuddy_soFar (soFar : BestSoFar head blocks size best a)
    (member : (a, b) ∈ placed head blocks) (header : Header mem a b) :
    BestSoFar head blocks size (bestBuddy mem size a best) a := by
  unfold bestBuddy
  split
  · rename_i taken
    rw [header.free, header.size] at taken
    exact Or.inr ⟨b, member, taken.1, taken.2.1, Nat.le_refl a⟩
  · exact soFar

/-- Nothing is best only if the block that was looked at does not suit. -/
theorem bestBlock_eq_zero (pos : 0 < a) (header : Header mem a b)
    (none : bestBlock mem size a best = 0) : best = 0 ∧ (b.free = true → b.size < size) := by
  unfold bestBlock at none
  rw [header.free, header.size] at none
  split at none
  · omega
  · rename_i passed
    refine ⟨none, fun free => ?_⟩
    by_contra large
    exact passed ⟨free, Nat.not_lt.mp large, Or.inl none⟩

theorem bestBuddy_eq_zero (pos : 0 < a) (header : Header mem a b)
    (none : bestBuddy mem size a best = 0) : best = 0 ∧ (b.free = true → b.size < size) := by
  unfold bestBuddy at none
  rw [header.free, header.size] at none
  split at none
  · omega
  · rename_i passed
    refine ⟨none, fun free => ?_⟩
    by_contra large
    exact passed ⟨free, Nat.not_lt.mp large, Or.inl none⟩

theorem bestJoined_eq_zero (pos : 0 < a) (header : Header mem a b)
    (none : bestJoined mem size a best = 0) : best = 0 ∧ b.size < size := by
  unfold bestJoined at none
  rw [header.size] at none
  split at none
  · omega
  · rename_i passed
    refine ⟨none, ?_⟩
    by_contra large
    exact passed ⟨Nat.not_lt.mp large, Or.inl none⟩

/-- **A join keeps the candidate**: it is before the pair, or the pair's first block. -/
theorem bestJoined_soFar {d : Block} {mem' : Mem}
    (soFar : BestSoFar head (before ++ b :: c :: rest) size best (head + total before))
    (larger : b.size ≤ d.size) (free : d.free = true)
    (header : Header mem' (head + total before) d) :
    BestSoFar head (before ++ d :: rest) size (bestJoined mem' size (head + total before) best)
      (head + total before) := by
  have here := mem_placed_middle head before d rest
  unfold bestJoined
  split
  · rename_i taken
    rw [header.size] at taken
    exact Or.inr ⟨d, here, free, taken.1, Nat.le_refl _⟩
  · rcases soFar with none | ⟨e, member, freeE, large, within⟩
    · exact Or.inl none
    · rw [placed_append, List.mem_append] at member
      rcases member with earlier | member
      · refine Or.inr ⟨e, ?_, freeE, large, within⟩
        rw [placed_append]
        exact List.mem_append_left _ earlier
      · rcases List.mem_cons.mp member with first | later
        · obtain ⟨rfl, rfl⟩ := Prod.mk.inj first
          exact Or.inr ⟨d, here, free, large.trans larger, Nat.le_refl _⟩
        · have := (placed_inside later).1
          have := b.size_ge
          omega

end Best

/-! ### The walk of the search -/

section Walk

/-- What the walk of the search leaves. -/
structure WalkResult (head tail size : Nat) (mem : Mem) (before rest : List Block) (best : Nat)
    (result : Mem × Nat) (blocks' : List Block) : Prop where
  tiles : Tiles result.1 head blocks' tail
  rearranged : Rearranged head mem (before ++ rest) result.1 blocks'
  suits : result.2 = 0 ∨ Suits head blocks' size result.2
  none : result.2 = 0 → best = 0 ∧ ∀ b ∈ inspected rest, b.free = true → b.size < size

/-- Which blocks are looked at after a pair. -/
theorem inspected_pair (b c : Block) (rest : List Block) :
    inspected (b :: c :: rest) =
      b :: c :: if b.size ≤ c.size then inspected rest else inspected (c :: rest) := by
  rw [inspected]

/-- The blocks are joined exactly if both are free and their orders agree. -/
theorem joins_iff {buddy : Nat} (headerB : Header mem a b) (headerC : Header mem buddy c) :
    joins mem a buddy ↔ b.free = true ∧ c.free = true ∧ b.order = c.order := by
  have sizes : b.size = c.size ↔ b.order = c.order := by
    have := Block.size_le_iff (b := b) (c := c)
    have := Block.size_le_iff (b := c) (c := b)
    omega
  rw [joins, headerB.free, headerB.size, headerC.free, headerC.size, sizes]

/-- A round of the walk, and the walk after it. -/
theorem WalkResult.round {mem₁ : Mem} {before₁ rest₁ blocks' : List Block} {best best₁ : Nat}
    {result : Mem × Nat} (walked : WalkResult head tail size mem₁ before₁ rest₁ best₁ result blocks')
    (rearranged : Rearranged head mem (before ++ b :: c :: rest) mem₁ (before₁ ++ rest₁))
    (looks : inspected (b :: c :: rest) = b :: c :: inspected rest₁)
    (looked : best₁ = 0 →
      best = 0 ∧ (b.free = true → b.size < size) ∧ (c.free = true → c.size < size)) :
    WalkResult head tail size mem before (b :: c :: rest) best result blocks' where
  tiles := walked.tiles
  rearranged := rearranged.trans walked.rearranged
  suits := walked.suits
  none nothing := by
    obtain ⟨before, later⟩ := walked.none nothing
    obtain ⟨earlier, first, second⟩ := looked before
    refine ⟨earlier, fun d member => ?_⟩
    rw [looks, List.mem_cons, List.mem_cons] at member
    rcases member with rfl | rfl | member
    · exact first
    · exact second
    · exact later d member

theorem doubleBlock_changedWithin (mem : Mem) (a : Nat) :
    ChangedWithin mem (doubleBlock mem a) a 16 := setBlockSize_changedWithin _ _ _

/-- The second block of a pair. -/
theorem Tiles.second (tiles : Tiles mem head (before ++ b :: c :: rest) tail) :
    Header mem (head + total before + b.size) c := by
  rw [cons_middle] at tiles
  have header := tiles.here
  rw [total_append, total_cons, total_nil, ← Nat.add_assoc] at header
  exact header

/-- Neither block of a pair suits if nothing is best after both. -/
theorem best_pair_eq_zero (size best : Nat) {buddy : Nat} (pos : 0 < a) (posBuddy : 0 < buddy)
    (headerB : Header mem a b) (headerC : Header mem buddy c)
    (none : bestBuddy mem size buddy (bestBlock mem size a best) = 0) :
    best = 0 ∧ (b.free = true → b.size < size) ∧ (c.free = true → c.size < size) := by
  obtain ⟨none, second⟩ := bestBuddy_eq_zero posBuddy headerC none
  obtain ⟨none, first⟩ := bestBlock_eq_zero pos headerB none
  exact ⟨none, first, second⟩

/-- With fewer than two blocks left a walk is over. -/
theorem Tiles.walk_ends {buddy : Nat} (tiles : Tiles mem head (before ++ rest) tail)
    (few : rest.length ≤ 1)
    (next : ∀ b rest', rest = b :: rest' → buddy = head + total before + b.size) :
    ¬ (head + total before < tail ∧ buddy < tail) := by
  rintro ⟨inside, inside'⟩
  cases rest with
  | nil =>
    have ends := tiles.ends
    rw [total_append, total_nil] at ends
    omega
  | cons b rest =>
    obtain rfl : rest = [] := List.length_eq_zero_iff.mp (by simpa using few)
    have ends := tiles.ends_at
    have place := next b [] rfl
    rw [total_nil] at ends
    omega

theorem findLoop_end {buddy best fuel : Nat} (few : rest.length ≤ 1)
    (tiles : Tiles mem head (before ++ rest) tail)
    (next : ∀ b rest', rest = b :: rest' → buddy = head + total before + b.size) :
    findLoop tail size (fuel + 1) mem (head + total before) buddy best = some (mem, best) := by
  rw [findLoop, if_neg (tiles.walk_ends few next)]

/-- **What a round of the search does with a pair**: it goes on behind the block that the two become, behind
the second one, or behind the first one. -/
inductive FindRound (head tail size fuel : Nat) (mem : Mem) (before : List Block) (b c : Block)
    (rest : List Block) (best : Nat) (outcome : Option (Mem × Nat)) : Prop
  | joined (buddy : Nat) (joins : b.free = true ∧ c.free = true ∧ b.order = c.order)
      (header : Header (doubleBlock mem (head + total before)) (head + total before) ⟨b.order + 1, true⟩)
      (tiles : Tiles (doubleBlock mem (head + total before)) head
        (before ++ [⟨b.order + 1, true⟩] ++ rest) tail)
      (rearranged : Rearranged head mem (before ++ b :: c :: rest)
        (doubleBlock mem (head + total before)) (before ++ [⟨b.order + 1, true⟩] ++ rest))
      (next : ∀ d rest', rest = d :: rest' →
        buddy = head + total (before ++ [⟨b.order + 1, true⟩]) + d.size)
      (goes : outcome = findLoop tail size fuel (doubleBlock mem (head + total before))
        (head + total (before ++ [⟨b.order + 1, true⟩])) buddy
        (bestJoined (doubleBlock mem (head + total before)) size (head + total before) best))
  | skipped (buddy : Nat) (apart : ¬ (b.free = true ∧ c.free = true ∧ b.order = c.order))
      (skips : b.size ≤ c.size) (tiles : Tiles mem head (before ++ [b, c] ++ rest) tail)
      (next : ∀ d rest', rest = d :: rest' → buddy = head + total (before ++ [b, c]) + d.size)
      (goes : outcome = findLoop tail size fuel mem (head + total (before ++ [b, c])) buddy
        (bestBuddy mem size (head + total before + b.size)
          (bestBlock mem size (head + total before) best)))
  | stepped (buddy : Nat) (apart : ¬ (b.free = true ∧ c.free = true ∧ b.order = c.order))
      (steps : ¬ b.size ≤ c.size) (tiles : Tiles mem head (before ++ [b] ++ c :: rest) tail)
      (next : ∀ d rest', c :: rest = d :: rest' → buddy = head + total (before ++ [b]) + d.size)
      (goes : outcome = findLoop tail size fuel mem (head + total (before ++ [b])) buddy
        (bestBuddy mem size (head + total before + b.size)
          (bestBlock mem size (head + total before) best)))

/-- **A round of the search.** -/
theorem findLoop_round (size fuel best : Nat) (bounded : tail < 2 ^ 64)
    (tiles : Tiles mem head (before ++ b :: c :: rest) tail) :
    FindRound head tail size fuel mem before b c rest best
      (findLoop tail size (fuel + 1) mem (head + total before) (head + total before + b.size) best) := by
  obtain ⟨ends, wideB, wideC⟩ := tiles.pair_inside
  have headerB := tiles.here
  have headerC := tiles.second
  rw [findLoop, if_pos (by omega)]
  by_cases joined : joins mem (head + total before) (head + total before + b.size)
  · obtain ⟨freeB, freeC, equal⟩ := (joins_iff headerB headerC).mp joined
    obtain ⟨tiles', rearranged⟩ := tiles.join bounded freeB freeC equal
    have sizes : b.size = c.size := by rw [Block.size, Block.size, equal]
    have doubled : (Block.mk (b.order + 1) true).size = b.size + b.size := Block.size_succ _ _
    have headerD := tiles'.here
    have headerC' := headerC.congr
      ((doubleBlock_changedWithin mem (head + total before)).same (Or.inr (by omega)))
    have place : head + total before + b.size + c.size =
        head + total (before ++ [⟨b.order + 1, true⟩]) := by
      rw [← place_one, doubled]
      omega
    rw [one_middle before ⟨b.order + 1, true⟩ rest] at tiles' rearranged
    rw [if_pos joined]
    dsimp only
    rw [headerC'.nextBlock, place]
    exact .joined _ ⟨freeB, freeC, equal⟩ headerD tiles' rearranged (tiles'.nextBuddy _) rfl
  · have apart := fun joins' => joined ((joins_iff headerB headerC).mpr joins')
    rw [if_neg joined, headerB.size, headerC.size]
    dsimp only
    split
    · rename_i skips
      rw [pair_middle] at tiles
      rw [headerC.nextBlock, place_two]
      exact .skipped _ apart skips tiles (tiles.nextBuddy _) rfl
    · rename_i steps
      rw [cons_middle] at tiles
      refine .stepped (head + total before + b.size + c.size) apart steps tiles (fun d rest' same => ?_) ?_
      · cases same
        rw [place_one]
      · rw [headerC.nextBlock, place_one]

/-- **The walk of `vd_buddy_alloc__find`**, from the block after `before` on. -/
theorem findLoop_spec (headPos : 0 < head) (bounded : tail < 2 ^ 64) (size : Nat) :
    ∀ (fuel : Nat) (mem : Mem) (before rest : List Block) (buddy best : Nat),
      Tiles mem head (before ++ rest) tail → rest.length < fuel →
      (∀ b rest', rest = b :: rest' → buddy = head + total before + b.size) →
      BestSoFar head (before ++ rest) size best (head + total before) →
      ∃ result blocks', findLoop tail size fuel mem (head + total before) buddy best = some result ∧
        WalkResult head tail size mem before rest best result blocks'
  | 0, _, _, _, _, _, _, enough, _, _ => absurd enough (Nat.not_lt_zero _)
  | fuel + 1, mem, before, rest, buddy, best, tiles, enough, next, soFar => by
    have stays : best = 0 ∨ Suits head (before ++ rest) size best := by
      rcases soFar with none | ⟨b, member, free, large, -⟩
      · exact Or.inl none
      · exact Or.inr ⟨b, member, free, large⟩
    match rest with
    | [] =>
      exact ⟨_, _, findLoop_end (by simp) tiles next, tiles, Rearranged.refl _ _ _, stays,
        fun none => ⟨none, fun _ member => by cases member⟩⟩
    | [b] =>
      exact ⟨_, _, findLoop_end (by simp) tiles next, tiles, Rearranged.refl _ _ _, stays,
        fun none => ⟨none, fun _ member => by cases member⟩⟩
    | b :: c :: rest =>
      have buddyAt := next b (c :: rest) rfl
      subst buddyAt
      have headerB := tiles.here
      have headerC := tiles.second
      have fewer : rest.length + 1 < fuel := Nat.lt_of_succ_lt_succ enough
      have looks := inspected_pair b c rest
      have soFarB := bestBlock_soFar soFar (mem_placed_middle head before b (c :: rest)) headerB
      have memberC : (head + total before + b.size, c) ∈ placed head (before ++ b :: c :: rest) := by
        have middle := mem_placed_middle head (before ++ [b]) c rest
        rw [total_append, total_cons, total_nil, List.append_assoc, ← Nat.add_assoc] at middle
        exact middle
      have soFarC := bestBuddy_soFar (soFarB.mono (Nat.le_add_right _ b.size)) memberC headerC
      have looked := best_pair_eq_zero size best (by omega) (by omega) headerB headerC
      cases findLoop_round size fuel best bounded tiles with
      | joined buddy joins headerD tiles' rearranged next' goes =>
        obtain ⟨freeB, freeC, equal⟩ := joins
        have sizes : b.size = c.size := by rw [Block.size, Block.size, equal]
        have doubled : (Block.mk (b.order + 1) true).size = b.size + b.size := Block.size_succ _ _
        have soFar' := bestJoined_soFar (c := c) soFar (show b.size ≤ _ by rw [doubled]; omega) rfl headerD
        rw [one_middle] at soFar'
        obtain ⟨result, blocks', ran, walked⟩ := findLoop_spec headPos bounded size fuel _ _ rest _ _
          tiles' (by omega) next' (soFar'.mono (by rw [← place_one]; omega))
        refine ⟨result, blocks', goes.trans ran, walked.round rearranged ?_ fun none => ?_⟩
        · rw [looks, if_pos (Nat.le_of_eq sizes)]
        · obtain ⟨none, small⟩ := bestJoined_eq_zero (by omega) headerD none
          exact ⟨none, fun _ => by omega, fun _ => by omega⟩
      | skipped buddy apart skips tiles' next' goes =>
        rw [pair_middle] at soFarC
        obtain ⟨result, blocks', ran, walked⟩ := findLoop_spec headPos bounded size fuel _ _ rest _ _ tiles'
          (by omega) next' (soFarC.mono (by rw [← place_two]; omega))
        refine ⟨result, blocks', goes.trans ran, walked.round ?_ ?_ looked⟩
        · rw [← pair_middle]
          exact Rearranged.refl _ _ _
        · rw [looks, if_pos skips]
      | stepped buddy apart steps tiles' next' goes =>
        rw [cons_middle before b c rest] at soFarC
        obtain ⟨result, blocks', ran, walked⟩ := findLoop_spec headPos bounded size fuel _ _ (c :: rest) _ _
          tiles' (by rw [List.length_cons]; omega) next' (soFarC.mono (by rw [← place_one]))
        refine ⟨result, blocks', goes.trans ran, walked.round ?_ ?_ looked⟩
        · rw [← cons_middle before b c rest]
          exact Rearranged.refl _ _ _
        · rw [looks, if_neg steps]

end Walk

/-! ### Finding -/

section Finding

/-- What the search leaves: a free block of exactly the size, or nothing, and then no block that it
met suits. -/
structure FindResult (head tail : Nat) (k : Nat) (mem : Mem) (blocks : List Block)
    (result : Mem × Nat) (blocks' : List Block) : Prop where
  tiles : Tiles result.1 head blocks' tail
  rearranged : Rearranged head mem blocks result.1 blocks'
  found : result.2 ≠ 0 → (result.2, ⟨k, true⟩) ∈ placed head blocks'
  none : result.2 = 0 → ∀ b ∈ met blocks, b.free = true → b.size < (Block.mk k true).size

/-- A tiling has at least as many bytes as blocks. -/
theorem Tiles.length_lt (tiles : Tiles mem head blocks tail) : blocks.length < tail - head + 1 := by
  have := tiles.ends
  have := length_le_total blocks
  omega

/-- **`vd_buddy_alloc__find`** ends, and finds a free block if the walk meets one that suits. -/
theorem buddyFind_spec (tiles : Tiles mem head blocks tail) (headPos : 0 < head)
    (bounded : tail < 2 ^ 64) (nonempty : blocks ≠ []) (k : Nat) :
    ∃ result blocks', buddyFind mem head tail (Block.mk k true).size = some result ∧
      FindResult head tail k mem blocks result blocks' := by
  obtain ⟨b, rest, rfl⟩ := List.exists_cons_of_ne_nil nonempty
  have header : Header mem head b := tiles.header _ _ List.mem_cons_self
  have ends := tiles.ends
  rw [total_cons] at ends
  rw [buddyFind, header.nextBlock, header.free]
  by_cases alone : head + b.size = tail ∧ b.free = true
  · obtain ⟨atTail, free⟩ := alone
    have last : rest = [] := by
      have := length_le_total rest
      exact List.eq_nil_of_length_eq_zero (by omega)
    subst last
    rw [if_pos ⟨atTail, free⟩]
    by_cases large : (Block.mk k true).size ≤ b.size
    · obtain ⟨mem', found, blocks', ran, tiles', rearranged, nonzero, there⟩ :=
        buddySplit_spec tiles headPos bounded ⟨b, List.mem_cons_self, free, large⟩
      exact ⟨_, _, ran, tiles', rearranged, fun _ => there, fun none => absurd none nonzero⟩
    · have wide := (Block.mk k true).size_ge
      have whole : splitLoop 65 mem head (Block.mk k true).size = some (mem, head) := by
        rw [splitLoop, header.size, if_neg (by omega)]
      refine ⟨(mem, 0), [b], ?_, tiles, Rearranged.refl _ _ _, fun found => absurd rfl found,
        fun _ c member _ => ?_⟩
      · rw [buddySplit, if_neg (by omega), whole, Option.map_some]
        show some (if _ ≤ blockSize mem head then _ else _) = _
        rw [header.size, if_neg large]
      · rw [List.mem_singleton.mp member]
        exact Nat.not_le.mp large
  · rw [if_neg alone]
    obtain ⟨result, blocks', ran, walked⟩ := findLoop_spec headPos bounded (Block.mk k true).size
      (tail - head + 1) mem [] (b :: rest) (head + b.size) 0 tiles tiles.length_lt
      (fun c rest' same => by cases same; rfl) (Or.inl rfl)
    have ran' : findLoop tail (Block.mk k true).size (tail - head + 1) mem head (head + b.size) 0 =
        some result := ran
    rw [ran', Option.bind_some]
    rcases walked.suits with none | suits
    · rw [if_neg (fun nonzero => nonzero none)]
      refine ⟨_, _, rfl, walked.tiles, walked.rearranged, fun found => absurd rfl found,
        fun _ c member free => ?_⟩
      cases rest with
      | nil =>
        -- a heap of one used block
        rw [List.mem_singleton.mp member] at free
        rw [total_nil] at ends
        exact absurd ⟨by omega, free⟩ alone
      | cons d rest => exact (walked.none none).2 c member free
    · have := suits.pos headPos walked.tiles
      obtain ⟨mem', found, blocks'', split, tiles', rearranged, nonzero, there⟩ :=
        buddySplit_spec walked.tiles headPos bounded suits
      rw [if_pos this.ne']
      exact ⟨_, _, split, tiles', walked.rearranged.trans rearranged, fun _ => there,
        fun none => absurd none nonzero⟩

end Finding

/-! ### Coalescing -/

section Coalescing

/-- What a pass leaves: fewer blocks, unless it ends the loop. -/
structure PassResult (head tail : Nat) (mem : Mem) (before rest : List Block)
    (noCoalescence : Bool) (result : Mem × Bool) (blocks' : List Block) : Prop where
  tiles : Tiles result.1 head blocks' tail
  rearranged : Rearranged head mem (before ++ rest) result.1 blocks'
  length_le : blocks'.length ≤ (before ++ rest).length
  shrinks : result.2 = false → noCoalescence = false ∨ blocks'.length < (before ++ rest).length

theorem coalescencePass_end {buddy fuel : Nat} {noCoalescence : Bool} (few : rest.length ≤ 1)
    (tiles : Tiles mem head (before ++ rest) tail)
    (next : ∀ b rest', rest = b :: rest' → buddy = head + total before + b.size) :
    coalescencePass tail (fuel + 1) mem (head + total before) buddy noCoalescence =
      some (mem, noCoalescence) := by
  rw [coalescencePass, if_neg (tiles.walk_ends few next)]

/-- **What a round of a pass does with a pair**: it goes on behind the block that the two become, behind the
first one, or behind the second one. -/
inductive PassRound (head tail fuel : Nat) (mem : Mem) (before : List Block) (b c : Block)
    (rest : List Block) (noCoalescence : Bool) (outcome : Option (Mem × Bool)) : Prop
  | joined (buddy : Nat) (joins : b.free = true ∧ c.free = true ∧ b.order = c.order)
      (tiles : Tiles (doubleBlock mem (head + total before)) head
        (before ++ [⟨b.order + 1, true⟩] ++ rest) tail)
      (rearranged : Rearranged head mem (before ++ b :: c :: rest)
        (doubleBlock mem (head + total before)) (before ++ [⟨b.order + 1, true⟩] ++ rest))
      (next : ∀ d rest', rest = d :: rest' →
        buddy = head + total (before ++ [⟨b.order + 1, true⟩]) + d.size)
      (goes : outcome = coalescencePass tail fuel (doubleBlock mem (head + total before))
        (head + total (before ++ [⟨b.order + 1, true⟩])) buddy (noCoalescence && rest.isEmpty))
  | stepped (buddy : Nat) (apart : ¬ (b.free = true ∧ c.free = true ∧ b.order = c.order))
      (steps : b.size < c.size) (tiles : Tiles mem head (before ++ [b] ++ c :: rest) tail)
      (next : ∀ d rest', c :: rest = d :: rest' → buddy = head + total (before ++ [b]) + d.size)
      (goes : outcome = coalescencePass tail fuel mem (head + total (before ++ [b])) buddy noCoalescence)
  | skipped (buddy : Nat) (apart : ¬ (b.free = true ∧ c.free = true ∧ b.order = c.order))
      (skips : ¬ b.size < c.size) (tiles : Tiles mem head (before ++ [b, c] ++ rest) tail)
      (next : ∀ d rest', rest = d :: rest' → buddy = head + total (before ++ [b, c]) + d.size)
      (goes : outcome = coalescencePass tail fuel mem (head + total (before ++ [b, c])) buddy noCoalescence)

/-- **A round of a pass.** -/
theorem coalescencePass_round (fuel : Nat) (noCoalescence : Bool) (bounded : tail < 2 ^ 64)
    (tiles : Tiles mem head (before ++ b :: c :: rest) tail) :
    PassRound head tail fuel mem before b c rest noCoalescence
      (coalescencePass tail (fuel + 1) mem (head + total before) (head + total before + b.size)
        noCoalescence) := by
  obtain ⟨ends, wideB, wideC⟩ := tiles.pair_inside
  have headerB := tiles.here
  have headerC := tiles.second
  rw [coalescencePass, if_pos (by omega)]
  by_cases joined : joins mem (head + total before) (head + total before + b.size)
  · obtain ⟨freeB, freeC, equal⟩ := (joins_iff headerB headerC).mp joined
    obtain ⟨tiles', rearranged⟩ := tiles.join bounded freeB freeC equal
    have headerD := tiles'.here
    have ends' := tiles'.ends_at
    -- there is more behind the joined block exactly if there are blocks
    have more : (if head + total before + (Block.mk (b.order + 1) true).size < tail then false
        else noCoalescence) = (noCoalescence && rest.isEmpty) := by
      cases rest with
      | nil =>
        rw [total_nil] at ends'
        rw [if_neg (by omega), List.isEmpty_nil, Bool.and_true]
      | cons d rest =>
        have wideD := d.size_ge
        rw [total_cons] at ends'
        rw [if_pos (by omega), List.isEmpty_cons, Bool.and_false]
    rw [one_middle before ⟨b.order + 1, true⟩ rest] at tiles' rearranged
    rw [if_pos joined]
    dsimp only
    rw [headerD.nextBlock, more, place_one]
    exact .joined _ ⟨freeB, freeC, equal⟩ tiles' rearranged (tiles'.nextBuddy _) rfl
  · have apart := fun joins' => joined ((joins_iff headerB headerC).mpr joins')
    rw [if_neg joined, headerB.size, headerC.size]
    dsimp only
    split
    · rename_i steps
      rw [cons_middle] at tiles
      refine .stepped (head + total before + b.size + c.size) apart steps tiles (fun d rest' same => ?_) ?_
      · cases same
        rw [place_one]
      · rw [headerC.nextBlock, place_one]
    · rename_i skips
      rw [pair_middle] at tiles
      rw [headerC.nextBlock, place_two]
      exact .skipped _ apart skips tiles (tiles.nextBuddy _) rfl

/-- A pass over the rest is one over the whole. -/
theorem PassResult.shift {before₁ rest₁ blocks' : List Block} {noCoalescence : Bool} {result : Mem × Bool}
    (passed : PassResult head tail mem before₁ rest₁ noCoalescence result blocks')
    (same : before ++ rest = before₁ ++ rest₁) :
    PassResult head tail mem before rest noCoalescence result blocks' := by
  refine ⟨passed.tiles, ?_, ?_, ?_⟩ <;> rw [same]
  · exact passed.rearranged
  · exact passed.length_le
  · exact passed.shrinks

/-- **A pass of `vd_buddy_alloc__coalescence`**, from the block after `before` on. -/
theorem coalescencePass_spec (bounded : tail < 2 ^ 64) :
    ∀ (fuel : Nat) (mem : Mem) (before rest : List Block) (buddy : Nat) (noCoalescence : Bool),
      Tiles mem head (before ++ rest) tail → rest.length < fuel →
      (∀ b rest', rest = b :: rest' → buddy = head + total before + b.size) →
      ∃ result blocks',
        coalescencePass tail fuel mem (head + total before) buddy noCoalescence = some result ∧
          PassResult head tail mem before rest noCoalescence result blocks'
  | 0, _, _, _, _, _, _, enough, _ => absurd enough (Nat.not_lt_zero _)
  | fuel + 1, mem, before, rest, buddy, noCoalescence, tiles, enough, next => by
    match rest with
    | [] =>
      exact ⟨_, _, coalescencePass_end (by simp) tiles next, tiles, Rearranged.refl _ _ _, Nat.le_refl _,
        Or.inl⟩
    | [b] =>
      exact ⟨_, _, coalescencePass_end (by simp) tiles next, tiles, Rearranged.refl _ _ _, Nat.le_refl _,
        Or.inl⟩
    | b :: c :: rest =>
      have buddyAt := next b (c :: rest) rfl
      subst buddyAt
      have fewer : rest.length + 1 < fuel := Nat.lt_of_succ_lt_succ enough
      cases coalescencePass_round fuel noCoalescence bounded tiles with
      | joined buddy joins tiles' rearranged next' goes =>
        obtain ⟨result, blocks', ran, passed⟩ := coalescencePass_spec bounded fuel _ _ rest _ _ tiles'
          (by omega) next'
        have shorter : (before ++ [Block.mk (b.order + 1) true] ++ rest).length <
            (before ++ b :: c :: rest).length := by simp
        exact ⟨result, blocks', goes.trans ran, passed.tiles, rearranged.trans passed.rearranged,
          passed.length_le.trans shorter.le, fun _ => Or.inr (passed.length_le.trans_lt shorter)⟩
      | stepped buddy apart steps tiles' next' goes =>
        obtain ⟨result, blocks', ran, passed⟩ := coalescencePass_spec bounded fuel _ _ (c :: rest) _
          noCoalescence tiles' (by rw [List.length_cons]; omega) next'
        exact ⟨result, blocks', goes.trans ran, passed.shift (cons_middle before b c rest)⟩
      | skipped buddy apart skips tiles' next' goes =>
        obtain ⟨result, blocks', ran, passed⟩ := coalescencePass_spec bounded fuel _ _ rest _
          noCoalescence tiles' (by omega) next'
        exact ⟨result, blocks', goes.trans ran, passed.shift (pair_middle before b c rest)⟩

/-- The loop around the passes. -/
theorem coalescenceLoop_spec (bounded : tail < 2 ^ 64) :
    ∀ (fuel : Nat) (mem : Mem) (blocks : List Block), Tiles mem head blocks tail → blocks ≠ [] →
      blocks.length < fuel →
      ∃ mem' blocks', coalescenceLoop head tail fuel mem = some mem' ∧
        Tiles mem' head blocks' tail ∧ Rearranged head mem blocks mem' blocks'
  | 0, _, _, _, _, enough => absurd enough (Nat.not_lt_zero _)
  | fuel + 1, mem, blocks, tiles, nonempty, enough => by
    obtain ⟨b, rest, rfl⟩ := List.exists_cons_of_ne_nil nonempty
    have header : Header mem head b := tiles.header _ _ List.mem_cons_self
    obtain ⟨result, blocks', ran, passed⟩ := coalescencePass_spec bounded (tail - head + 1) mem []
      (b :: rest) (head + b.size) true tiles tiles.length_lt (fun c rest' same => by cases same; rfl)
    have ran' : coalescencePass tail (tail - head + 1) mem head (head + b.size) true =
        some result := ran
    rw [coalescenceLoop, header.nextBlock, ran', Option.bind_some]
    split
    · exact ⟨_, _, rfl, passed.tiles, passed.rearranged⟩
    · rename_i again
      have shorter : blocks'.length < (b :: rest).length := by
        rcases passed.shrinks (by simpa using again) with same | shorter
        · cases same
        · exact shorter
      have nonempty' : blocks' ≠ [] := by
        rintro rfl
        have wide := b.size_ge
        have same := passed.rearranged.total
        rw [List.nil_append, total_cons, total_nil] at same
        omega
      obtain ⟨mem', last, rest', tiles', rearranged⟩ :=
        coalescenceLoop_spec bounded fuel _ _ passed.tiles nonempty' (by omega)
      exact ⟨mem', last, rest', tiles', passed.rearranged.trans rearranged⟩

/-- **`vd_buddy_alloc__coalescence`** ends. -/
theorem buddyCoalescence_spec (tiles : Tiles mem head blocks tail) (bounded : tail < 2 ^ 64)
    (nonempty : blocks ≠ []) :
    ∃ mem' blocks', buddyCoalescence mem head tail = some mem' ∧ Tiles mem' head blocks' tail ∧
      Rearranged head mem blocks mem' blocks' :=
  coalescenceLoop_spec bounded _ mem blocks tiles nonempty tiles.length_lt

end Coalescing

end Vaudou
