/-
**Natural alignment of the blocks.**

The walks pair a block with the next one, whatever their offsets are. `searchPairs` and `passPairs` are
the pairs that they compare; a pair that is joined is the two halves of one block only if the first one
is at an even multiple of its size. A search for 128 bytes in `[64 used][16][16 free][16 free][16]`
joins the middle two.

* `buddyRun_natural` — as long as the walks join no pair at an odd multiple, the offset of every block is
  a multiple of its size.
-/

import Vaudou.Buddy.Runs
import Vaudou.Buddy.Walks

namespace Vaudou

open Vaudou.Memory Vaudou.Run

variable {mem : Mem} {head tail offset k : Nat} {b c : Block} {blocks blocks' before rest : List Block}
  {heap heap' : BuddyHeap}

/-! ### Offsets -/

/-- The offset of every block is a multiple of its size. -/
def Natural : (offset : Nat) → List Block → Prop
  | _, [] => True
  | offset, b :: rest => b.size ∣ offset ∧ Natural (offset + b.size) rest

/-- The pairs that the walk of the search compares, with the offset of the first block. -/
def searchPairs : (offset : Nat) → List Block → List (Nat × Block × Block)
  | _, [] => []
  | _, [_] => []
  | offset, b :: c :: rest =>
    (offset, b, c) :: if b.size ≤ c.size then searchPairs (offset + b.size + c.size) rest
      else searchPairs (offset + b.size) (c :: rest)

/-- The pairs that a pass of the coalescing compares. -/
def passPairs : (offset : Nat) → List Block → List (Nat × Block × Block)
  | _, [] => []
  | _, [_] => []
  | offset, b :: c :: rest =>
    (offset, b, c) :: if b.size < c.size then passPairs (offset + b.size) (c :: rest)
      else passPairs (offset + b.size + c.size) rest

/-- No pair that is joined starts at an odd multiple of its size. -/
def Halves (pairs : List (Nat × Block × Block)) : Prop :=
  ∀ pair ∈ pairs, pair.2.1.Joins pair.2.2 → 2 * pair.2.1.size ∣ pair.1

instance (pairs : List (Nat × Block × Block)) : Decidable (Halves pairs) :=
  inferInstanceAs (Decidable (∀ pair ∈ pairs, _))

/-- The passes of the coalescing join no such pair. -/
def PassHalves : (rounds : Nat) → List Block → Prop
  | 0, _ => True
  | rounds + 1, blocks =>
    Halves (passPairs 0 blocks) ∧ (passesAgain blocks = true → PassHalves rounds (passed blocks))

instance PassHalves.decidable : ∀ rounds blocks, Decidable (PassHalves rounds blocks)
  | 0, _ => inferInstanceAs (Decidable True)
  | rounds + 1, blocks =>
    have := PassHalves.decidable rounds (passed blocks)
    inferInstanceAs (Decidable (_ ∧ (_ → _)))

/-- **No walk of a request joins a pair at an odd multiple**: the search, and, if it is offered nothing,
the coalescing and the search after it. -/
def JoinsHalves (blocks : List Block) (k : Nat) : Prop :=
  Halves (searchPairs 0 blocks) ∧ (¬ Offered blocks k →
    PassHalves (searched blocks).length (searched blocks) ∧
      Halves (searchPairs 0 (coalesced (searched blocks))))

instance (blocks : List Block) (k : Nat) : Decidable (JoinsHalves blocks k) :=
  inferInstanceAs (Decidable (_ ∧ (_ → _)))

/-! ### Joins and cuts -/

section Lists

theorem natural_append : ∀ {before : List Block} {offset : Nat},
    Natural offset (before ++ rest) ↔ Natural offset before ∧ Natural (offset + total before) rest
  | [], offset => by
    rw [List.nil_append, Natural, true_and, total_nil, Nat.add_zero]
  | b :: before, offset => by
    rw [List.cons_append, Natural, Natural, natural_append, and_assoc, total_cons, Nat.add_assoc]

/-- **Natural alignment**, in terms of the addresses. -/
theorem natural_iff (head : Nat) : ∀ {blocks : List Block} {offset : Nat}, Natural offset blocks ↔
    ∀ a b, (a, b) ∈ placed (head + offset) blocks → b.size ∣ a - head
  | [], offset => iff_of_true trivial fun _ _ member => absurd member List.not_mem_nil
  | b :: rest, offset => by
    rw [Natural, natural_iff head, ← Nat.add_assoc]
    constructor
    · rintro ⟨here, later⟩ a c member
      rcases List.mem_cons.mp member with same | member
      · obtain ⟨rfl, rfl⟩ := Prod.mk.inj same
        rwa [Nat.add_sub_cancel_left]
      · exact later a c member
    · intro each
      refine ⟨?_, fun a c member => each a c (List.mem_cons_of_mem _ member)⟩
      have here := each _ b List.mem_cons_self
      rwa [Nat.add_sub_cancel_left] at here

theorem Halves.cons_iff {pair : Nat × Block × Block} {pairs : List (Nat × Block × Block)} :
    Halves (pair :: pairs) ↔ (pair.2.1.Joins pair.2.2 → 2 * pair.2.1.size ∣ pair.1) ∧ Halves pairs :=
  List.forall_mem_cons

theorem size_joined (b : Block) : (Block.mk (b.order + 1) true).size = 2 * b.size := by
  rw [Block.size_succ, Nat.two_mul]
  rfl

/-- **The joins of the search** keep the blocks aligned. -/
theorem Natural.searched : ∀ {blocks : List Block} {offset : Nat}, Natural offset blocks →
    Halves (searchPairs offset blocks) → Natural offset (searched blocks)
  | [], _, natural, _ => natural
  | [_], _, natural, _ => natural
  | b :: c :: rest, offset, natural, halves => by
    obtain ⟨first, second, later⟩ := natural
    rw [searchPairs, Halves.cons_iff] at halves
    rw [Vaudou.searched]
    by_cases joined : b.Joins c
    · have same := joined.size_eq
      rw [if_pos same.le] at halves
      rw [if_pos joined]
      refine ⟨?_, ?_⟩
      · rw [size_joined]
        exact halves.1 joined
      · rw [size_joined, Nat.two_mul, ← Nat.add_assoc]
        have rest := Natural.searched later halves.2
        rwa [← same] at rest
    · rw [if_neg joined]
      by_cases skips : b.size ≤ c.size
      · rw [if_pos skips] at halves ⊢
        exact ⟨first, second, Natural.searched later halves.2⟩
      · rw [if_neg skips] at halves ⊢
        have next : Natural (offset + b.size) (c :: rest) := ⟨second, later⟩
        exact ⟨first, Natural.searched next halves.2⟩

/-- **The joins of a pass** do too. -/
theorem Natural.passed : ∀ {blocks : List Block} {offset : Nat}, Natural offset blocks →
    Halves (passPairs offset blocks) → Natural offset (passed blocks)
  | [], _, natural, _ => natural
  | [_], _, natural, _ => natural
  | b :: c :: rest, offset, natural, halves => by
    obtain ⟨first, second, later⟩ := natural
    rw [passPairs, Halves.cons_iff] at halves
    rw [Vaudou.passed]
    by_cases joined : b.Joins c
    · have same := joined.size_eq
      rw [if_neg same.not_lt] at halves
      rw [if_pos joined]
      refine ⟨?_, ?_⟩
      · rw [size_joined]
        exact halves.1 joined
      · rw [size_joined, Nat.two_mul, ← Nat.add_assoc]
        have rest := Natural.passed later halves.2
        rwa [← same] at rest
    · rw [if_neg joined]
      by_cases steps : b.size < c.size
      · rw [if_pos steps] at halves ⊢
        have next : Natural (offset + b.size) (c :: rest) := ⟨second, later⟩
        exact ⟨first, Natural.passed next halves.2⟩
      · rw [if_neg steps] at halves ⊢
        exact ⟨first, second, Natural.passed later halves.2⟩

theorem Natural.passes : ∀ {rounds : Nat} {blocks : List Block}, Natural 0 blocks →
    PassHalves rounds blocks → Natural 0 (passes rounds blocks)
  | 0, _, natural, _ => natural
  | rounds + 1, blocks, natural, halves => by
    rw [Vaudou.passes]
    split
    · rename_i again
      exact Natural.passes (natural.passed halves.1) (halves.2 again)
    · exact natural.passed halves.1

/-- **A block is cut in half.** -/
theorem Natural.halve {order : Nat} (natural : Natural offset (before ++ ⟨order + 1, true⟩ :: rest)) :
    Natural offset (before ++ ⟨order, true⟩ :: ⟨order, true⟩ :: rest) := by
  obtain ⟨earlier, here, later⟩ := natural_append.mp natural
  have sizes := Block.size_succ order true
  have half : (Block.mk order true).size ∣ (Block.mk (order + 1) true).size :=
    ⟨2, by rw [sizes, Nat.mul_two]⟩
  have first := half.trans here
  refine natural_append.mpr ⟨earlier, first, Nat.dvd_add first dvd_rfl, ?_⟩
  rwa [Nat.add_assoc _ (Block.size _) (Block.size _), ← sizes]

end Lists

/-! ### Allocations -/

section Allocations

/-- **Cutting a block down** keeps the blocks aligned. -/
theorem splitLoop_natural (bounded : tail < 2 ^ 64) (k : Nat) {result : Mem × Nat} (fuel : Nat) :
    ∀ (mem : Mem) (before rest : List Block) (order : Nat),
      Tiles mem head (before ++ ⟨order, true⟩ :: rest) tail →
      Natural 0 (before ++ ⟨order, true⟩ :: rest) →
      splitLoop fuel mem (head + total before) (Block.mk k true).size = some result →
      ∃ blocks', Tiles result.1 head blocks' tail ∧ Natural 0 blocks' := by
  induction fuel with
  | zero =>
    intro mem before rest order tiles natural ran
    cases ran
  | succ fuel ih =>
    intro mem before rest order tiles natural ran
    have header := tiles.here
    rw [splitLoop, header.size] at ran
    by_cases larger : (Block.mk k true).size < (Block.mk order true).size
    · rw [if_pos larger] at ran
      have order_lt : k < order := by
        by_contra notLess
        have same : (Block.mk order true).size ≤ (Block.mk k true).size :=
          Block.size_le_iff.mpr (Nat.not_lt.mp notLess)
        omega
      obtain ⟨half, rfl⟩ : ∃ half, order = half + 1 := ⟨order - 1, by omega⟩
      obtain ⟨halved, right⟩ := tiles.halves bounded
      obtain ⟨cut, -⟩ := tiles.halve bounded rfl rfl
      simp only [halved, right] at ran
      have aligned := natural.halve
      rw [cons_middle] at cut aligned
      refine ih _ _ _ _ cut aligned ?_
      rw [← place_one]
      exact ran
    · rw [if_neg larger] at ran
      cases ran
      exact ⟨_, tiles, natural⟩

theorem buddySplit_natural (bounded : tail < 2 ^ 64) {a : Nat} {result : Mem × Nat} (pos : a ≠ 0)
    (tiles : Tiles mem head blocks tail) (natural : Natural 0 blocks)
    (suits : Suits head blocks (Block.mk k true).size a)
    (split : buddySplit mem a (Block.mk k true).size = some result) :
    ∃ blocks', Tiles result.1 head blocks' tail ∧ Natural 0 blocks' := by
  obtain ⟨⟨order, free⟩, member, isFree, -⟩ := suits
  change free = true at isFree
  subst isFree
  obtain ⟨before, rest, rfl, rfl⟩ := placed_split member
  have wide := (Block.mk k true).size_ge
  rw [buddySplit, if_neg (by omega)] at split
  obtain ⟨found, ran, same⟩ := Option.map_eq_some_iff.mp split
  obtain ⟨blocks', tiles', natural'⟩ := splitLoop_natural bounded k 65 _ _ _ _ tiles natural ran
  refine ⟨blocks', ?_, natural'⟩
  rw [← same]
  split <;> exact tiles'

/-- The flag of a block does not matter. -/
theorem Tiles.flip_natural (tiles : Tiles mem head blocks tail) (natural : Natural 0 blocks)
    {a : Nat} (there : (a, b) ∈ placed head blocks) (free : Bool) :
    ∃ blocks', Tiles (setBlockIsFree mem a free) head blocks' tail ∧ Natural 0 blocks' := by
  obtain ⟨blocks', tiles', -, member⟩ := tiles.flip there free
  have each := (natural_iff head).mp natural
  refine ⟨blocks', tiles', (natural_iff head).mpr fun a' b' there' => ?_⟩
  rcases (member a' b').mp there' with ⟨rfl, rfl⟩ | ⟨-, old⟩
  · exact each a' b there
  · exact each a' b' old

/-- **A block that is cut and marked used.** -/
theorem Takes.natural {a : Nat} (takes : Takes head tail blocks k (mem, a)) (headPos : 0 < head)
    (bounded : tail < 2 ^ 64) (natural : Natural 0 blocks) (free : Bool) :
    ∃ blocks', Tiles (setBlockIsFree mem a free) head blocks' tail ∧ Natural 0 blocks' := by
  obtain ⟨mem₁, best, tiles, suits, split⟩ := takes
  obtain ⟨mem', found, cut, ran, tiles', -, -, there⟩ := buddySplit_spec tiles headPos bounded suits
  cases split.symm.trans ran
  obtain ⟨cut', tiles'', natural'⟩ :=
    buddySplit_natural bounded (suits.pos headPos tiles).ne' tiles natural suits ran
  obtain rfl := tiles''.unique tiles'
  exact tiles'.flip_natural natural' there free

/-- **An allocation whose walks join halves** keeps the blocks aligned. -/
theorem allocate_natural (sound : heap.Sound blocks) (natural : Natural 0 blocks) {size : Nat}
    (required : sizeReq heap.alloc size = some (Block.mk k true).size) (halves : JoinsHalves blocks k)
    (stepped : buddyStep heap (.allocate size) = some heap') :
    ∃ blocks', Tiles heap'.mem heap.alloc.head blocks' heap.alloc.tail ∧ Natural 0 blocks' := by
  obtain ⟨small, made⟩ := Option.ite_none_right_eq_some.mp stepped
  obtain ⟨result, ran, rfl⟩ := Option.map_eq_some_iff.mp made
  obtain ⟨result', ran', walk⟩ :=
    buddyAllocate_walk sound.headPos sound.bounded sound.tiles sound.nonempty required
  cases ran.symm.trans ran'
  have bounded : heap.alloc.tail < 2 ^ 64 := lt_of_le_of_lt sound.bounded (by norm_num)
  have early := natural.searched halves.1
  cases walk with
  | early offered mem a takes nonzero same =>
    rw [same]
    exact takes.natural sound.headPos bounded early false
  | late missing offered mem a takes nonzero same =>
    have late := (early.passes (halves.2 missing).1).searched (halves.2 missing).2
    rw [same]
    exact takes.natural sound.headPos bounded late false
  | null missing missing' tiles zero =>
    exact ⟨_, tiles, (early.passes (halves.2 missing).1).searched (halves.2 missing).2⟩

end Allocations

/-! ### Runs -/

section Runs

/-- The walks of the operation join no pair at an odd multiple. -/
def BuddyHeap.JoinsHalves (heap : BuddyHeap) : BuddyOp → Prop
  | .allocate size => ∀ blocks, Tiles heap.mem heap.alloc.head blocks heap.alloc.tail →
      ∀ k, sizeReq heap.alloc size = some (Block.mk k true).size → Vaudou.JoinsHalves blocks k
  | .free _ => True
  | .write _ _ _ => True

/-- **One operation.** -/
theorem buddyStep_natural (sound : heap.Sound blocks) (natural : Natural 0 blocks) {op : BuddyOp}
    (halves : heap.JoinsHalves op) (stepped : buddyStep heap op = some heap') :
    ∃ blocks', heap'.Sound blocks' ∧ Natural 0 blocks' := by
  obtain ⟨blocks', kept⟩ := buddyStep_keeps sound stepped
  have tiled : ∃ blocks', Tiles heap'.mem heap.alloc.head blocks' heap.alloc.tail ∧
    Natural 0 blocks' := by
    cases op with
    | allocate size =>
      have small := (Option.ite_none_right_eq_some.mp stepped).1
      obtain ⟨k, required, -⟩ := sizeReq_spec sound.aligned small
      exact allocate_natural sound natural required (halves blocks sound.tiles k required) stepped
    | free ptr =>
      obtain ⟨b, n, -, there, -, -, -, rfl⟩ := free_flips sound stepped
      exact sound.tiles.flip_natural natural there true
    | write ptr offset bytes => exact ⟨blocks, write_tiles sound stepped, natural⟩
  obtain ⟨blocks'', tiles, natural'⟩ := tiled
  have tiles' := kept.sound.tiles
  rw [kept.alloc] at tiles'
  obtain rfl := tiles.unique tiles'
  exact ⟨blocks'', kept.sound, natural'⟩

/-- A heap of 128 bytes at 1: a block of 32 is handed out and freed, then the whole heap is asked for. -/
def wholeAgain : List BuddyOp := [.allocate 16, .free 113, .allocate 112]

theorem BuddyHeap.JoinsHalves.of_tiles {size : Nat}
    (tiles : Tiles heap.mem heap.alloc.head blocks heap.alloc.tail)
    {actualSize : Nat} (required : sizeReq heap.alloc size = some actualSize)
    (halves : Vaudou.JoinsHalves blocks k) (power : actualSize = (Block.mk k true).size) :
    heap.JoinsHalves (.allocate size) := by
  intro blocks' tiles' k' required'
  obtain rfl := tiles.unique tiles'
  have same : (Block.mk k true).size = (Block.mk k' true).size :=
    power.symm.trans (Option.some.inj (required.symm.trans required'))
  cases Block.ext_size same rfl
  exact halves

end Runs

end Vaudou
