/-
**The walks of the buddy allocator, as functions of the tiling.**

The search and the coalescing go over the blocks by pairs, and where they step depends on the sizes
alone. `searched` and `passed` are the tilings that the two walks leave, `offers` is what the search can
choose from; a pair that is joined counts as one block.

* `findLoop_walk`, `coalescencePass_walk`, `coalescenceLoop_walk` — the walks over the memory are those
  over the tiling.
* `buddyAllocate_iff` — a request is granted exactly if the search is offered a block, before or after
  the coalescing.
-/

import Vaudou.Buddy.Heap

namespace Vaudou

open Vaudou.Memory

variable {mem : Mem} {head tail a size k : Nat} {b c : Block} {blocks before rest : List Block}
  {alloc : BuddyAlloc}

/-- The pair is joined where a walk compares it. -/
def Block.Joins (b c : Block) : Prop := b.free = true ∧ c.free = true ∧ b.order = c.order

instance (b c : Block) : Decidable (b.Joins c) := inferInstanceAs (Decidable (_ ∧ _ ∧ _))

/-- The tiling after the walk of the search. -/
def searched : List Block → List Block
  | [] => []
  | [b] => [b]
  | b :: c :: rest =>
    if b.Joins c then ⟨b.order + 1, true⟩ :: searched rest
    else if b.size ≤ c.size then b :: c :: searched rest
    else b :: searched (c :: rest)

/-- The blocks that the walk of the search compares with the size, after the joins. -/
def offered : List Block → List Block
  | [] => []
  | [_] => []
  | b :: c :: rest =>
    if b.Joins c then ⟨b.order + 1, true⟩ :: offered rest
    else b :: c :: if b.size ≤ c.size then offered rest else offered (c :: rest)

/-- The blocks that the search compares with the size: the only block of a heap in any case. -/
def offers : List Block → List Block
  | [b] => [b]
  | blocks => offered blocks

/-- The search is offered a free block of the order. -/
def Offered (blocks : List Block) (k : Nat) : Prop := ∃ d ∈ offers blocks, d.free = true ∧ k ≤ d.order

instance (blocks : List Block) (k : Nat) : Decidable (Offered blocks k) :=
  inferInstanceAs (Decidable (∃ d ∈ offers blocks, _))

/-- The tiling after a pass of the coalescing. -/
def passed : List Block → List Block
  | [] => []
  | [b] => [b]
  | b :: c :: rest =>
    if b.Joins c then ⟨b.order + 1, true⟩ :: passed rest
    else if b.size < c.size then b :: passed (c :: rest)
    else b :: c :: passed rest

/-- There is another pass: a pair is joined that is not the last one. -/
def passesAgain : List Block → Bool
  | [] => false
  | [_] => false
  | b :: c :: rest =>
    if b.Joins c then !rest.isEmpty || passesAgain rest
    else if b.size < c.size then passesAgain (c :: rest)
    else passesAgain rest

/-- The tiling after at most so many passes. -/
def passes : (rounds : Nat) → List Block → List Block
  | 0, blocks => blocks
  | rounds + 1, blocks => if passesAgain blocks then passes rounds (passed blocks) else passed blocks

/-- The tiling after the coalescing: each pass but the last one joins blocks. -/
def coalesced (blocks : List Block) : List Block := passes blocks.length blocks

/-! ### Tilings -/

section Tilings

theorem Block.ext_size (size : b.size = c.size) (free : b.free = c.free) : b = c := by
  have low := Block.size_le_iff.mp size.le
  have high := Block.size_le_iff.mp size.ge
  obtain ⟨order, isFree⟩ := b
  obtain ⟨order', isFree'⟩ := c
  change order ≤ order' at low
  change order' ≤ order at high
  change isFree = isFree' at free
  rw [Nat.le_antisymm low high, free]

/-- **A heap has one tiling.** -/
theorem Tiles.unique : ∀ {blocks blocks' : List Block} {head : Nat}, Tiles mem head blocks tail →
    Tiles mem head blocks' tail → blocks = blocks'
  | [], [], _, _, _ => rfl
  | [], c :: rest', head, tiles, tiles' => by
    have ends := tiles.ends.trans tiles'.ends.symm
    have wide := c.size_ge
    rw [total_nil, total_cons] at ends
    omega
  | b :: rest, [], head, tiles, tiles' => by
    have ends := tiles.ends.trans tiles'.ends.symm
    have wide := b.size_ge
    rw [total_nil, total_cons] at ends
    omega
  | b :: rest, c :: rest', head, tiles, tiles' => by
    have first := tiles.header head b List.mem_cons_self
    have first' := tiles'.header head c List.mem_cons_self
    have same : b = c :=
      Block.ext_size (first.size.symm.trans first'.size) (first.free.symm.trans first'.free)
    subst same
    have later : Tiles mem (head + b.size) rest tail :=
      ⟨fun a d member => tiles.header a d (List.mem_cons_of_mem _ member), by
        rw [← tiles.ends, total_cons, Nat.add_assoc]⟩
    have later' : Tiles mem (head + b.size) rest' tail :=
      ⟨fun a d member => tiles'.header a d (List.mem_cons_of_mem _ member), by
        rw [← tiles'.ends, total_cons, Nat.add_assoc]⟩
    rw [Tiles.unique later later']

theorem Block.Joins.size_eq (joins : b.Joins c) : b.size = c.size := by
  rw [Block.size, Block.size, joins.2.2]

end Tilings

/-! ### The search -/

section Search

variable {best : Nat}

theorem bestBlock_eq_zero_iff (pos : 0 < a) (header : Header mem a b) :
    bestBlock mem size a best = 0 ↔ best = 0 ∧ (b.free = true → b.size < size) := by
  refine ⟨bestBlock_eq_zero pos header, fun ⟨nothing, small⟩ => ?_⟩
  rw [bestBlock, header.free, header.size, if_neg, nothing]
  exact fun taken => absurd taken.2.1 (Nat.not_le.mpr (small taken.1))

theorem bestBuddy_eq_zero_iff (pos : 0 < a) (header : Header mem a b) :
    bestBuddy mem size a best = 0 ↔ best = 0 ∧ (b.free = true → b.size < size) := by
  refine ⟨bestBuddy_eq_zero pos header, fun ⟨nothing, small⟩ => ?_⟩
  rw [bestBuddy, header.free, header.size, if_neg, nothing]
  exact fun taken => absurd taken.2.1 (Nat.not_le.mpr (small taken.1))

theorem bestJoined_eq_zero_iff (pos : 0 < a) (header : Header mem a b) :
    bestJoined mem size a best = 0 ↔ best = 0 ∧ b.size < size := by
  refine ⟨bestJoined_eq_zero pos header, fun ⟨nothing, small⟩ => ?_⟩
  rw [bestJoined, header.size, if_neg, nothing]
  exact fun taken => absurd taken.1 (Nat.not_le.mpr small)

/-- None of the blocks suits. -/
def TooSmall (size : Nat) (blocks : List Block) : Prop := ∀ d ∈ blocks, d.free = true → d.size < size

theorem TooSmall.cons_iff : TooSmall size (b :: blocks) ↔
    (b.free = true → b.size < size) ∧ TooSmall size blocks := List.forall_mem_cons

/-- **The walk of `vd_buddy_alloc__find`** leaves `searched`, and finds nothing exactly if nothing that
it is offered suits. -/
theorem findLoop_walk (headPos : 0 < head) (bounded : tail < 2 ^ 64) (size : Nat) :
    ∀ (fuel : Nat) (mem : Mem) (before rest : List Block) (buddy best : Nat),
      Tiles mem head (before ++ rest) tail → rest.length < fuel →
      (∀ b rest', rest = b :: rest' → buddy = head + total before + b.size) →
      ∃ mem' best', findLoop tail size fuel mem (head + total before) buddy best = some (mem', best') ∧
        Tiles mem' head (before ++ searched rest) tail ∧
        (best' = 0 ↔ best = 0 ∧ TooSmall size (offered rest))
  | 0, _, _, _, _, _, _, enough, _ => absurd enough (Nat.not_lt_zero _)
  | fuel + 1, mem, before, [], buddy, best, tiles, _, next =>
    ⟨mem, best, findLoop_end (by simp) tiles next, tiles,
      iff_self_and.mpr fun _ _ member => absurd member List.not_mem_nil⟩
  | fuel + 1, mem, before, [b], buddy, best, tiles, _, next =>
    ⟨mem, best, findLoop_end (by simp) tiles next, tiles,
      iff_self_and.mpr fun _ _ member => absurd member List.not_mem_nil⟩
  | fuel + 1, mem, before, b :: c :: rest, buddy, best, tiles, enough, next => by
    have buddyAt := next b (c :: rest) rfl
    subst buddyAt
    have fewer : rest.length + 1 < fuel := Nat.lt_of_succ_lt_succ enough
    have looked : bestBuddy mem size (head + total before + b.size)
        (bestBlock mem size (head + total before) best) = 0 ↔
        best = 0 ∧ (b.free = true → b.size < size) ∧ (c.free = true → c.size < size) := by
      rw [bestBuddy_eq_zero_iff (by omega) tiles.second, bestBlock_eq_zero_iff (by omega) tiles.here,
        and_assoc]
    rw [searched, offered]
    cases findLoop_round size fuel best bounded tiles with
    | joined buddy joins headerD tiles' _ next' goes =>
      have joined : b.Joins c := joins
      obtain ⟨mem', best', ran, walked, found⟩ := findLoop_walk headPos bounded size fuel _ _ rest _
        (bestJoined (doubleBlock mem (head + total before)) size (head + total before) best) tiles'
        (by omega) next'
      rw [if_pos joined, if_pos joined]
      refine ⟨mem', best', goes.trans ran, by rw [one_middle]; exact walked, ?_⟩
      rw [found, bestJoined_eq_zero_iff (by omega) headerD, TooSmall.cons_iff, and_assoc]
      exact and_congr_right fun _ => and_congr_left
        fun _ => ⟨fun small _ => small, fun small => small rfl⟩
    | skipped buddy apart skips tiles' next' goes =>
      have apart : ¬ b.Joins c := apart
      obtain ⟨mem', best', ran, walked, found⟩ := findLoop_walk headPos bounded size fuel _ _ rest _
        (bestBuddy mem size (head + total before + b.size)
          (bestBlock mem size (head + total before) best)) tiles' (by omega) next'
      rw [if_neg apart, if_neg apart, if_pos skips, if_pos skips]
      refine ⟨mem', best', goes.trans ran, by rw [pair_middle]; exact walked, ?_⟩
      rw [found, looked, TooSmall.cons_iff, TooSmall.cons_iff, and_assoc, and_assoc]
    | stepped buddy apart steps tiles' next' goes =>
      have apart : ¬ b.Joins c := apart
      obtain ⟨mem', best', ran, walked, found⟩ := findLoop_walk headPos bounded size fuel _ _ (c :: rest) _
        (bestBuddy mem size (head + total before + b.size)
          (bestBlock mem size (head + total before) best)) tiles' (by rw [List.length_cons]; omega) next'
      rw [if_neg apart, if_neg apart, if_neg steps, if_neg steps]
      refine ⟨mem', best', goes.trans ran, by rw [one_middle]; exact walked, ?_⟩
      rw [found, looked, TooSmall.cons_iff, TooSmall.cons_iff, and_assoc, and_assoc]

end Search

/-! ### The coalescing -/

section Coalescing

/-- **A pass of `vd_buddy_alloc__coalescence`** leaves `passed`. -/
theorem coalescencePass_walk (bounded : tail < 2 ^ 64) :
    ∀ (fuel : Nat) (mem : Mem) (before rest : List Block) (buddy : Nat) (noCoalescence : Bool),
      Tiles mem head (before ++ rest) tail → rest.length < fuel →
      (∀ b rest', rest = b :: rest' → buddy = head + total before + b.size) →
      ∃ mem', coalescencePass tail fuel mem (head + total before) buddy noCoalescence =
          some (mem', noCoalescence && !passesAgain rest) ∧
        Tiles mem' head (before ++ passed rest) tail
  | 0, _, _, _, _, _, _, enough, _ => absurd enough (Nat.not_lt_zero _)
  | fuel + 1, mem, before, [], buddy, noCoalescence, tiles, _, next => by
    refine ⟨mem, ?_, tiles⟩
    rw [coalescencePass_end (by simp) tiles next, passesAgain, Bool.not_false, Bool.and_true]
  | fuel + 1, mem, before, [b], buddy, noCoalescence, tiles, _, next => by
    refine ⟨mem, ?_, tiles⟩
    rw [coalescencePass_end (by simp) tiles next, passesAgain, Bool.not_false, Bool.and_true]
  | fuel + 1, mem, before, b :: c :: rest, buddy, noCoalescence, tiles, enough, next => by
    have buddyAt := next b (c :: rest) rfl
    subst buddyAt
    have fewer : rest.length + 1 < fuel := Nat.lt_of_succ_lt_succ enough
    rw [passed, passesAgain]
    cases coalescencePass_round fuel noCoalescence bounded tiles with
    | joined buddy joins tiles' _ next' goes =>
      have joined : b.Joins c := joins
      obtain ⟨mem', ran, walked⟩ := coalescencePass_walk bounded fuel _ _ rest _
        (noCoalescence && rest.isEmpty) tiles' (by omega) next'
      rw [if_pos joined, if_pos joined]
      refine ⟨mem', (goes.trans ran).trans ?_, by rw [one_middle]; exact walked⟩
      rw [Bool.not_or, Bool.not_not, Bool.and_assoc]
    | stepped buddy apart steps tiles' next' goes =>
      have apart : ¬ b.Joins c := apart
      obtain ⟨mem', ran, walked⟩ := coalescencePass_walk bounded fuel _ _ (c :: rest) _ noCoalescence tiles'
        (by rw [List.length_cons]; omega) next'
      rw [if_neg apart, if_neg apart, if_pos steps, if_pos steps]
      exact ⟨mem', goes.trans ran, by rw [one_middle]; exact walked⟩
    | skipped buddy apart skips tiles' next' goes =>
      have apart : ¬ b.Joins c := apart
      obtain ⟨mem', ran, walked⟩ := coalescencePass_walk bounded fuel _ _ rest _ noCoalescence tiles'
        (by omega) next'
      rw [if_neg apart, if_neg apart, if_neg skips, if_neg skips]
      exact ⟨mem', goes.trans ran, by rw [pair_middle]; exact walked⟩

theorem passed_length_le : ∀ blocks : List Block, (passed blocks).length ≤ blocks.length
  | [] => Nat.le_refl 0
  | [_] => Nat.le_refl 1
  | b :: c :: rest => by
    have later := passed_length_le rest
    have step := passed_length_le (c :: rest)
    rw [passed]
    split
    · exact (Nat.succ_le_succ later).trans (Nat.le_succ _)
    · split
      · exact Nat.succ_le_succ step
      · exact Nat.succ_le_succ (Nat.succ_le_succ later)

/-- A pass after which there is another one joins blocks. -/
theorem passed_shorter : ∀ {blocks : List Block}, passesAgain blocks = true →
    (passed blocks).length < blocks.length
  | b :: c :: rest, again => by
    rw [passesAgain] at again
    rw [passed]
    by_cases joined : b.Joins c
    · rw [if_pos joined]
      exact Nat.succ_lt_succ (Nat.lt_succ_of_le (passed_length_le rest))
    · rw [if_neg joined] at again ⊢
      by_cases steps : b.size < c.size
      · rw [if_pos steps] at again ⊢
        exact Nat.succ_lt_succ (passed_shorter again)
      · rw [if_neg steps] at again ⊢
        exact Nat.succ_lt_succ (Nat.succ_lt_succ (passed_shorter again))

theorem passed_ne_nil : ∀ {blocks : List Block}, blocks ≠ [] → passed blocks ≠ []
  | [_], _ => List.cons_ne_nil _ _
  | b :: c :: rest, _ => by
    rw [passed]
    split
    · exact List.cons_ne_nil _ _
    · split <;> exact List.cons_ne_nil _ _

/-- **The loop of `vd_buddy_alloc__coalescence`** makes pass after pass. -/
theorem coalescenceLoop_walk (bounded : tail < 2 ^ 64) :
    ∀ (fuel rounds : Nat) (mem : Mem) (blocks : List Block), Tiles mem head blocks tail →
      blocks ≠ [] → blocks.length ≤ rounds → blocks.length < fuel →
      ∃ mem', coalescenceLoop head tail fuel mem = some mem' ∧
        Tiles mem' head (passes rounds blocks) tail
  | 0, _, _, _, _, _, _, enough => absurd enough (Nat.not_lt_zero _)
  | _ + 1, 0, _, [], _, nonempty, _, _ => absurd rfl nonempty
  | fuel + 1, rounds + 1, mem, [], _, nonempty, _, _ => absurd rfl nonempty
  | fuel + 1, rounds + 1, mem, b :: rest, tiles, nonempty, within, enough => by
    have header : Header mem head b := tiles.header _ _ List.mem_cons_self
    obtain ⟨mem', ran, tiles'⟩ := coalescencePass_walk bounded (tail - head + 1) mem [] (b :: rest)
      (head + b.size) true tiles tiles.length_lt (fun c rest' same => by cases same; rfl)
    have ran' : coalescencePass tail (tail - head + 1) mem head (head + b.size) true =
        some (mem', !passesAgain (b :: rest)) := ran
    rw [coalescenceLoop, header.nextBlock, ran', Option.bind_some, passes]
    by_cases again : passesAgain (b :: rest) = true
    · have shorter := passed_shorter again
      rw [again, if_pos rfl]
      exact coalescenceLoop_walk bounded fuel rounds mem' _ tiles' (passed_ne_nil nonempty) (by omega)
        (by omega)
    · rw [Bool.not_eq_true] at again
      rw [again]
      exact ⟨mem', rfl, tiles'⟩

/-- **`vd_buddy_alloc__coalescence`** leaves `coalesced`. -/
theorem buddyCoalescence_walk (tiles : Tiles mem head blocks tail) (bounded : tail < 2 ^ 64)
    (nonempty : blocks ≠ []) :
    ∃ mem', buddyCoalescence mem head tail = some mem' ∧ Tiles mem' head (coalesced blocks) tail :=
  coalescenceLoop_walk bounded _ _ mem blocks tiles nonempty le_rfl tiles.length_lt

end Coalescing

/-! ### Finding and allocating -/

section Finding

theorem not_tooSmall_iff {blocks : List Block} :
    ¬ TooSmall (Block.mk k true).size blocks ↔ ∃ d ∈ blocks, d.free = true ∧ k ≤ d.order := by
  have order : ∀ d : Block, (Block.mk k true).size ≤ d.size ↔ k ≤ d.order := fun d => Block.size_le_iff
  simp only [TooSmall, not_forall, Nat.not_lt, exists_prop, order]

/-- A free block of the tiling is cut down to the order. -/
def Takes (head tail : Nat) (blocks : List Block) (k : Nat) (result : Mem × Nat) : Prop :=
  ∃ mem best, Tiles mem head blocks tail ∧ Suits head blocks (Block.mk k true).size best ∧
    buddySplit mem best (Block.mk k true).size = some result

/-- **`vd_buddy_alloc__find`** finds a block exactly if it is offered one; the tiling it chooses from is
`searched`. -/
theorem buddyFind_walk (tiles : Tiles mem head blocks tail) (headPos : 0 < head)
    (bounded : tail < 2 ^ 64) (nonempty : blocks ≠ []) (k : Nat) :
    ∃ mem' found, buddyFind mem head tail (Block.mk k true).size = some (mem', found) ∧
      (found ≠ 0 ↔ Offered blocks k) ∧ (found = 0 → Tiles mem' head (searched blocks) tail) ∧
      (found ≠ 0 → Takes head tail (searched blocks) k (mem', found)) := by
  obtain ⟨b, rest, rfl⟩ := List.exists_cons_of_ne_nil nonempty
  have header : Header mem head b := tiles.header _ _ List.mem_cons_self
  have ends := tiles.ends
  rw [total_cons] at ends
  rw [buddyFind, header.nextBlock, header.free]
  by_cases alone : head + b.size = tail ∧ b.free = true
  · obtain ⟨atTail, free⟩ := alone
    have last : rest = [] := by
      have := length_le_total rest
      exact List.eq_nil_of_length_eq_zero (by omega)
    subst last
    have offer : Offered [b] k ↔ (Block.mk k true).size ≤ b.size := by
      rw [Block.size_le_iff]
      refine ⟨?_, fun large => ⟨b, List.mem_singleton_self b, free, large⟩⟩
      rintro ⟨d, member, -, large⟩
      rwa [List.mem_singleton.mp member] at large
    rw [if_pos ⟨atTail, free⟩, offer]
    by_cases large : (Block.mk k true).size ≤ b.size
    · have suits : Suits head [b] (Block.mk k true).size head := ⟨b, List.mem_cons_self, free, large⟩
      obtain ⟨mem', found, -, ran, -, -, nonzero, -⟩ := buddySplit_spec tiles headPos bounded suits
      exact ⟨mem', found, ran, iff_of_true nonzero large, fun zero => absurd zero nonzero,
        fun _ => ⟨mem, head, tiles, suits, ran⟩⟩
    · have wide := (Block.mk k true).size_ge
      have whole : splitLoop 65 mem head (Block.mk k true).size = some (mem, head) := by
        rw [splitLoop, header.size, if_neg (by omega)]
      refine ⟨mem, 0, ?_, iff_of_false (fun nonzero => nonzero rfl) large, fun _ => tiles,
        fun nonzero => absurd rfl nonzero⟩
      rw [buddySplit, if_neg (by omega), whole, Option.map_some]
      show some (if _ ≤ blockSize mem head then _ else _) = _
      rw [header.size, if_neg large]
  · rw [if_neg alone]
    have buddyAt : ∀ c rest', b :: rest = c :: rest' → head + b.size = head + total [] + c.size :=
      fun c rest' same => by cases same; rfl
    obtain ⟨result, blocks', ran, walk⟩ := findLoop_spec headPos bounded (Block.mk k true).size
      (tail - head + 1) mem [] (b :: rest) (head + b.size) 0 tiles tiles.length_lt buddyAt (Or.inl rfl)
    obtain ⟨mem', best, ran', walked, found⟩ := findLoop_walk headPos bounded (Block.mk k true).size
      (tail - head + 1) mem [] (b :: rest) (head + b.size) 0 tiles tiles.length_lt buddyAt
    obtain rfl := Option.some.inj (ran.symm.trans ran')
    obtain rfl := walk.tiles.unique walked
    have ran : findLoop tail (Block.mk k true).size (tail - head + 1) mem head (head + b.size) 0 =
        some (mem', best) := ran
    have offer : best ≠ 0 ↔ Offered (b :: rest) k := by
      rw [Ne, found, Offered, ← not_tooSmall_iff, not_iff_not]
      cases rest with
      | cons c rest => exact and_iff_right rfl
      | nil =>
        -- a heap of one used block
        have used : b.free ≠ true := fun free => alone ⟨by rw [total_nil] at ends; omega, free⟩
        refine iff_of_true ⟨rfl, fun d member => absurd member List.not_mem_nil⟩ fun d member free => ?_
        rw [List.mem_singleton.mp member] at free
        exact absurd free used
    rw [ran, Option.bind_some]
    rcases walk.suits with zero | suits
    · change best = 0 at zero
      rw [if_neg (fun nonzero => nonzero zero)]
      exact ⟨mem', 0, rfl, iff_of_false (fun nonzero => nonzero rfl)
        (fun offered => offer.mpr offered zero),
        fun _ => walked, fun nonzero => absurd rfl nonzero⟩
    · have pos : best ≠ 0 := (suits.pos headPos walked).ne'
      obtain ⟨mem'', found, -, split, -, -, nonzero, -⟩ := buddySplit_spec walked headPos bounded suits
      rw [if_pos pos]
      exact ⟨mem'', found, split, iff_of_true nonzero (offer.mp pos), fun zero => absurd zero nonzero,
        fun _ => ⟨mem', best, walked, suits, split⟩⟩

theorem searched_ne_nil : ∀ {blocks : List Block}, blocks ≠ [] → searched blocks ≠ []
  | [_], _ => List.cons_ne_nil _ _
  | b :: c :: rest, _ => by
    rw [searched]
    split
    · exact List.cons_ne_nil _ _
    · split <;> exact List.cons_ne_nil _ _

/-- How an allocation goes: the search takes a block before the coalescing, or after it, or
not at all. -/
inductive AllocateWalk (alloc : BuddyAlloc) (blocks : List Block) (k : Nat) (result : Mem × Nat) : Prop
  | early (offered : Offered blocks k) (mem : Mem) (a : Nat)
      (takes : Takes alloc.head alloc.tail (searched blocks) k (mem, a)) (nonzero : a ≠ 0)
      (same : result = (setBlockIsFree mem a false, a + alloc.alignment))
  | late (missing : ¬ Offered blocks k) (offered : Offered (coalesced (searched blocks)) k) (mem : Mem)
      (a : Nat)
      (takes : Takes alloc.head alloc.tail (searched (coalesced (searched blocks))) k (mem, a))
      (nonzero : a ≠ 0) (same : result = (setBlockIsFree mem a false, a + alloc.alignment))
  | null (missing : ¬ Offered blocks k) (missing' : ¬ Offered (coalesced (searched blocks)) k)
      (tiles : Tiles result.1 alloc.head (searched (coalesced (searched blocks))) alloc.tail)
      (zero : result.2 = 0)

/-- **`vd_buddy_alloc_realloc(alloc, 0, size)`**, as a walk over the tiling. -/
theorem buddyAllocate_walk (headPos : 0 < alloc.head) (bounded : alloc.tail ≤ 2 ^ 63)
    (tiles : Tiles mem alloc.head blocks alloc.tail) (nonempty : blocks ≠ [])
    (required : sizeReq alloc size = some (Block.mk k true).size) :
    ∃ result, buddyAllocRealloc mem alloc 0 size = some result ∧ AllocateWalk alloc blocks k result := by
  have bounded' : alloc.tail < 2 ^ 64 := by omega
  obtain ⟨mem₁, found, ran₁, offer, left, takes⟩ := buddyFind_walk tiles headPos bounded' nonempty k
  rw [buddyAllocRealloc, if_pos rfl, buddyAllocate, required, Option.bind_some, ran₁, Option.bind_some]
  by_cases failed : found = 0
  · have missing : ¬ Offered blocks k := fun offered => offer.mpr offered failed
    obtain ⟨mem₂, ran₂, tiles₂⟩ :=
      buddyCoalescence_walk (left failed) bounded' (searched_ne_nil nonempty)
    obtain ⟨mem₃, found', ran₃, offer', left', takes'⟩ := buddyFind_walk tiles₂ headPos bounded'
      (tiles.ne_nil tiles₂ nonempty) k
    rw [if_pos failed, ran₂, Option.bind_some, ran₃, Option.map_some]
    by_cases failed' : found' = 0
    · rw [if_neg (fun nonzero => nonzero failed')]
      exact ⟨_, rfl, .null missing (fun offered => offer'.mpr offered failed') (left' failed') rfl⟩
    · rw [if_pos failed']
      exact ⟨_, rfl, .late missing (offer'.mp failed') mem₃ found' (takes' failed') failed' rfl⟩
  · rw [if_neg failed, Option.map_some, if_pos failed]
    exact ⟨_, rfl, .early (offer.mp failed) mem₁ found (takes failed) failed rfl⟩

/-- **A request is granted** exactly if the search is offered a block of the size requirement, before or
after the coalescing. -/
theorem buddyAllocate_iff (headPos : 0 < alloc.head) (bounded : alloc.tail ≤ 2 ^ 63)
    (tiles : Tiles mem alloc.head blocks alloc.tail) (nonempty : blocks ≠ [])
    (required : sizeReq alloc size = some (Block.mk k true).size) :
    (∃ result, buddyAllocRealloc mem alloc 0 size = some result ∧ result.2 ≠ 0) ↔
      Offered blocks k ∨ Offered (coalesced (searched blocks)) k := by
  obtain ⟨result, ran, walk⟩ := buddyAllocate_walk headPos bounded tiles nonempty required
  rw [ran]
  have unique : (∃ result', some result = some result' ∧ result'.2 ≠ 0) ↔ result.2 ≠ 0 := by
    simp only [Option.some.injEq, exists_eq_left']
  rw [unique]
  cases walk with
  | early offered mem a takes nonzero same =>
    exact iff_of_true (by rw [same]; exact Nat.add_pos_left (Nat.pos_of_ne_zero nonzero) _ |>.ne')
      (Or.inl offered)
  | late missing offered mem a takes nonzero same =>
    exact iff_of_true (by rw [same]; exact Nat.add_pos_left (Nat.pos_of_ne_zero nonzero) _ |>.ne')
      (Or.inr offered)
  | null missing missing' tiles zero =>
    exact iff_of_false (fun nonzero => nonzero zero) (fun offered => offered.elim missing missing')

end Finding

end Vaudou
