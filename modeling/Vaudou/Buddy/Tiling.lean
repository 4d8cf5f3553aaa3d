/-
**Tilings: what the heap is, as a list of blocks.**

A `Block` carries an order, so that its size is a power of two of at least 16 by construction. `placed`
gives the blocks of a list their addresses; `Tiles` says that the headers in memory are those of the
list and that the list ends at `tail`.

* `Tiles.replace` — rewriting a stretch of blocks by blocks of the same total size.
* `Rearranged` — all that the searches of the allocator do to the heap: only free blocks are cut and
  joined, and no byte of a used block, or outside the heap, changes.
-/

import Mathlib.Algebra.BigOperators.Group.List.Basic
import Vaudou.Buddy.Blocks

namespace Vaudou

open Vaudou.Memory

/-! ### Blocks and their places -/

/-- A block of `16 * 2 ^ order` bytes, header included. -/
structure Block where
  order : Nat
  free : Bool
deriving DecidableEq, Repr

/-- The size of a block. -/
def Block.size (b : Block) : Nat := 16 * 2 ^ b.order

/-- The bytes that a list of blocks covers. -/
def total (blocks : List Block) : Nat := (blocks.map Block.size).sum

/-- The blocks of a list that starts at `p`, with their addresses. -/
def placed : (p : Nat) → List Block → List (Nat × Block)
  | _, [] => []
  | p, b :: rest => (p, b) :: placed (p + b.size) rest

section Places

variable {p a : Nat} {b c : Block} {blocks rest : List Block}

theorem Block.size_ge (b : Block) : 16 ≤ b.size :=
  Nat.le_mul_of_pos_right 16 (Nat.two_pow_pos b.order)

theorem Block.size_le_iff : b.size ≤ c.size ↔ b.order ≤ c.order := by
  unfold Block.size
  rw [Nat.mul_le_mul_left_iff (by decide), PowerOfTwo.two_pow_le_iff]

theorem Block.size_succ (order : Nat) (free : Bool) :
    (Block.mk (order + 1) free).size = (Block.mk order free).size + (Block.mk order free).size := by
  show 16 * 2 ^ (order + 1) = 16 * 2 ^ order + 16 * 2 ^ order
  rw [pow_succ]
  omega

@[simp] theorem total_nil : total [] = 0 := rfl

@[simp] theorem total_cons : total (b :: rest) = b.size + total rest := by simp [total]

@[simp] theorem total_append (first second : List Block) :
    total (first ++ second) = total first + total second := by simp [total]

theorem length_le_total : ∀ blocks : List Block, 16 * blocks.length ≤ total blocks
  | [] => Nat.le_refl 0
  | b :: rest => by
    have := length_le_total rest
    have := b.size_ge
    rw [total_cons, List.length_cons]
    omega

/-- A list of blocks with the bytes of another one is empty only if that is. -/
theorem ne_nil_of_total {blocks' : List Block} (same : total blocks' = total blocks)
    (nonempty : blocks ≠ []) : blocks' ≠ [] := by
  rintro rfl
  obtain ⟨b, rest, rfl⟩ := List.exists_cons_of_ne_nil nonempty
  have wide := b.size_ge
  rw [total_nil, total_cons] at same
  omega

theorem placed_append (p : Nat) : ∀ first second : List Block,
    placed p (first ++ second) = placed p first ++ placed (p + total first) second
  | [], second => rfl
  | b :: rest, second => by
    show (p, b) :: placed (p + b.size) (rest ++ second) = _
    rw [placed_append (p + b.size) rest second, total_cons, Nat.add_assoc]
    rfl

/-- A placed block lies within the bytes of its list. -/
theorem placed_inside : ∀ {blocks : List Block} {p : Nat}, (a, b) ∈ placed p blocks →
    p ≤ a ∧ a + b.size ≤ p + total blocks
  | [], _, member => nomatch member
  | c :: rest, p, member => by
    rw [total_cons]
    rcases List.mem_cons.mp member with here | later
    · cases here
      omega
    · have := placed_inside later
      omega

/-- **Blocks do not overlap.** -/
theorem placed_apart : ∀ {blocks : List Block} {p a' : Nat} {b' : Block},
    (a, b) ∈ placed p blocks → (a', b') ∈ placed p blocks →
    (a = a' ∧ b = b') ∨ a + b.size ≤ a' ∨ a' + b'.size ≤ a
  | [], _, _, _, member, _ => nomatch member
  | c :: rest, p, a', b', member, member' => by
    rcases List.mem_cons.mp member with here | later
    · rcases List.mem_cons.mp member' with here' | later'
      · cases here
        cases here'
        exact Or.inl ⟨rfl, rfl⟩
      · cases here
        exact Or.inr (Or.inl (placed_inside later').1)
    · rcases List.mem_cons.mp member' with here' | later'
      · cases here'
        exact Or.inr (Or.inr (placed_inside later).1)
      · exact placed_apart later later'

/-- The list around a placed block. -/
theorem placed_split : ∀ {blocks : List Block} {p : Nat}, (a, b) ∈ placed p blocks →
    ∃ before rest, blocks = before ++ b :: rest ∧ a = p + total before
  | [], _, member => nomatch member
  | c :: rest, p, member => by
    rcases List.mem_cons.mp member with here | later
    · cases here
      exact ⟨[], rest, rfl, rfl⟩
    · obtain ⟨before, rest', rfl, rfl⟩ := placed_split later
      refine ⟨c :: before, rest', rfl, ?_⟩
      rw [total_cons, Nat.add_assoc]

theorem mem_placed_middle (p : Nat) (before : List Block) (b : Block) (rest : List Block) :
    (p + total before, b) ∈ placed p (before ++ b :: rest) := by
  rw [placed_append]
  exact List.mem_append_right _ List.mem_cons_self

end Places

/-! ### Headers -/

/-- The header at `a` is that of the block. -/
structure Header (mem : Mem) (a : Nat) (b : Block) : Prop where
  size : blockSize mem a = b.size
  free : blockIsFree mem a = b.free

/-- The headers in memory are those of the blocks, and the blocks end at `tail`. -/
structure Tiles (mem : Mem) (head : Nat) (blocks : List Block) (tail : Nat) : Prop where
  header : ∀ a b, (a, b) ∈ placed head blocks → Header mem a b
  ends : head + total blocks = tail

section Headers

variable {mem mem' : Mem} {a head tail : Nat} {b : Block}

instance (mem : Mem) (a : Nat) (b : Block) : Decidable (Header mem a b) :=
  decidable_of_iff (blockSize mem a = b.size ∧ blockIsFree mem a = b.free)
    ⟨fun both => ⟨both.1, both.2⟩, fun header => ⟨header.size, header.free⟩⟩

instance (mem : Mem) (head : Nat) (blocks : List Block) (tail : Nat) :
    Decidable (Tiles mem head blocks tail) :=
  decidable_of_iff ((∀ place ∈ placed head blocks, Header mem place.1 place.2) ∧
      head + total blocks = tail)
    ⟨fun both => ⟨fun a b member => both.1 (a, b) member, both.2⟩,
      fun tiles => ⟨fun place member => tiles.header place.1 place.2 member, tiles.ends⟩⟩

/-- Two tilings of one stretch are both empty or neither is. -/
theorem Tiles.ne_nil {blocks blocks' : List Block} (tiles : Tiles mem head blocks tail)
    (tiles' : Tiles mem' head blocks' tail) (nonempty : blocks ≠ []) : blocks' ≠ [] :=
  ne_nil_of_total (Nat.add_left_cancel (tiles'.ends.trans tiles.ends.symm)) nonempty

theorem Header.congr (header : Header mem a b) (same : Same mem mem' a 16) : Header mem' a b where
  size := (readNat_congr (same.part (Nat.le_refl a) (by omega))).trans header.size
  free := by
    unfold blockIsFree
    rw [readNat_congr (same.part (by omega) (by omega))]
    exact header.free

theorem Header.nextBlock (header : Header mem a b) : nextBlock mem a = a + b.size := by
  rw [Vaudou.nextBlock, header.size]

theorem blockSize_setBlockSize {size : Nat} (fits : size < 2 ^ 64) :
    blockSize (setBlockSize mem a size) a = size := readNat_writeNat_lt (by omega)

theorem blockIsFree_setBlockSize {size : Nat} :
    blockIsFree (setBlockSize mem a size) a = blockIsFree mem a := by
  have change := writeNat_changedWithin mem a 8 size
  unfold blockIsFree setBlockSize
  rw [readNat_congr (change.same (Or.inr (by omega)))]

theorem blockSize_setBlockIsFree {free : Bool} :
    blockSize (setBlockIsFree mem a free) a = blockSize mem a := by
  have change := writeNat_changedWithin mem (a + 8) 4 free.toNat
  exact readNat_congr (change.same (Or.inl (by omega)))

theorem blockIsFree_setBlockIsFree {free : Bool} :
    blockIsFree (setBlockIsFree mem a free) a = free := by
  unfold blockIsFree setBlockIsFree
  rw [readNat_writeNat_lt (by cases free <;> decide)]
  cases free <;> rfl

theorem setBlockSize_changedWithin (mem : Mem) (a size : Nat) :
    ChangedWithin mem (setBlockSize mem a size) a 16 :=
  (writeNat_changedWithin mem a 8 size).widen (Nat.le_refl a) (by omega)

theorem setBlockIsFree_changedWithin (mem : Mem) (a : Nat) (free : Bool) :
    ChangedWithin mem (setBlockIsFree mem a free) a 16 :=
  (writeNat_changedWithin mem (a + 8) 4 free.toNat).widen (by omega) (by omega)

/-- A new size. -/
theorem Header.setBlockSize (header : Header mem a b) {order : Nat}
    (fits : (Block.mk order b.free).size < 2 ^ 64) :
    Header (setBlockSize mem a (Block.mk order b.free).size) a ⟨order, b.free⟩ where
  size := blockSize_setBlockSize fits
  free := blockIsFree_setBlockSize.trans header.free

/-- A new flag. -/
theorem Header.setBlockIsFree (header : Header mem a b) (free : Bool) :
    Header (setBlockIsFree mem a free) a ⟨b.order, free⟩ where
  size := blockSize_setBlockIsFree.trans header.size
  free := blockIsFree_setBlockIsFree

/-- **Rewriting a stretch of the tiling.** -/
theorem Tiles.replace {before stretch stretch' rest : List Block}
    (tiles : Tiles mem head (before ++ stretch ++ rest) tail)
    (equal : total stretch' = total stretch)
    (change : ChangedWithin mem mem' (head + total before) (total stretch))
    (headers : ∀ a b, (a, b) ∈ placed (head + total before) stretch' → Header mem' a b) :
    Tiles mem' head (before ++ stretch' ++ rest) tail where
  header a b member := by
    have old := fun a b => tiles.header a b
    rw [placed_append, placed_append] at old member
    simp only [List.mem_append] at old member
    have size := b.size_ge
    rcases member with (member | member) | member
    · have := placed_inside member
      exact (old a b (Or.inl (Or.inl member))).congr
        (change.same (Or.inl (by omega)))
    · exact headers a b member
    · rw [total_append, equal, ← total_append] at member
      have inside := placed_inside member
      rw [total_append] at inside
      exact (old a b (Or.inr member)).congr (change.same (Or.inr (by omega)))
  ends := by
    rw [← tiles.ends]
    simp only [total_append, equal]

end Headers

/-! ### Rearranging free blocks -/

/-- The used blocks and their bytes are the same, and nothing outside the heap has changed. -/
structure Rearranged (head : Nat) (mem : Mem) (blocks : List Block) (mem' : Mem)
    (blocks' : List Block) : Prop where
  used : ∀ a b, b.free = false → ((a, b) ∈ placed head blocks' ↔ (a, b) ∈ placed head blocks)
  same : ∀ a b, b.free = false → (a, b) ∈ placed head blocks → Same mem mem' a b.size
  total : total blocks' = total blocks
  outside : ChangedWithin mem mem' head (Vaudou.total blocks)

section Rearranging

variable {mem mem' mem'' : Mem} {head tail : Nat} {blocks blocks' blocks'' : List Block}

theorem Rearranged.refl (head : Nat) (mem : Mem) (blocks : List Block) :
    Rearranged head mem blocks mem blocks :=
  ⟨fun _ _ _ => Iff.rfl, fun a b _ _ => Same.refl mem a b.size, rfl, ChangedWithin.refl mem _ _⟩

theorem Rearranged.trans (first : Rearranged head mem blocks mem' blocks')
    (second : Rearranged head mem' blocks' mem'' blocks'') :
    Rearranged head mem blocks mem'' blocks'' where
  used a b free := (second.used a b free).trans (first.used a b free)
  same a b free member := (first.same a b free member).trans
    (second.same a b free ((first.used a b free).mpr member))
  total := second.total.trans first.total
  outside := first.outside.trans (first.total ▸ second.outside)

/-- A stretch of free blocks is cut or joined. -/
theorem Rearranged.of_replace {before stretch stretch' rest : List Block}
    (equal : Vaudou.total stretch' = Vaudou.total stretch)
    (change : ChangedWithin mem mem' (head + Vaudou.total before) (Vaudou.total stretch))
    (free : ∀ b ∈ stretch, b.free = true) (free' : ∀ b ∈ stretch', b.free = true) :
    Rearranged head mem (before ++ stretch ++ rest) mem' (before ++ stretch' ++ rest) := by
  have member_block : ∀ {p a : Nat} {b : Block} {blocks : List Block}, (a, b) ∈ placed p blocks →
      b ∈ blocks := by
    intro p a b blocks member
    obtain ⟨before, rest, rfl, -⟩ := placed_split member
    exact List.mem_append_right _ List.mem_cons_self
  have noneUsed : ∀ {p a : Nat} {b : Block} {blocks : List Block}, (∀ c ∈ blocks, c.free = true) →
      b.free = false → (a, b) ∉ placed p blocks := by
    intro p a b blocks allFree used member
    rw [allFree b (member_block member)] at used
    cases used
  refine ⟨fun a b used => ?_, fun a b used member => ?_, ?_, ?_⟩
  · simp only [placed_append, List.mem_append, noneUsed free used, noneUsed free' used, or_false,
      total_append, equal]
  · rw [placed_append, placed_append, List.mem_append, List.mem_append] at member
    rcases member with (member | member) | member
    · have := placed_inside member
      exact change.same (Or.inl (by omega))
    · exact absurd member (noneUsed free used)
    · have inside := placed_inside member
      rw [total_append] at inside
      exact change.same (Or.inr (by omega))
  · simp only [total_append, equal]
  · refine change.widen (by omega) ?_
    simp only [total_append]
    omega

end Rearranging

end Vaudou
