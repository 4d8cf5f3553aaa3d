/-
**The dynamic arrays refine lists.**

`ArrayState.Holds` is an array that holds a list: a header with the length, the capacity and the
allocator, and the bytes of the elements one behind the other, all in the block that was granted.
Growing keeps it (`arrayGrow_holds`), and every operation does to the array what it does to the list.

* `arrayRun_refines` — every run on lists is a run on arrays, without an access outside of the block.
-/

import Mathlib.Algebra.BigOperators.Group.List.Basic
import Vaudou.Array.Dynamic

namespace Vaudou

open Vaudou.Memory Vaudou.Run

/-! ### Lists -/

/-- A list, and what was removed at its end. -/
structure Listing where
  items : List (List UInt8)
  popped : List (List UInt8)
deriving DecidableEq

/-- An operation on a list of elements of `tsize` bytes; `none` is an index or a count out of range. -/
def listStep (tsize : Nat) (l : Listing) : ArrayOp → Option Listing
  | .init => some l
  | .add v | .addp v => if v.length = tsize then some { l with items := l.items ++ [v] } else none
  | .addn items =>
    if ∀ v ∈ items, v.length = tsize then some { l with items := l.items ++ items } else none
  | .pop => l.items.getLast?.map fun v => ⟨l.items.dropLast, l.popped ++ [v]⟩
  | .del i =>
    if i < l.items.length then some { l with items := l.items.take i ++ l.items.drop (i + 1) } else none
  | .deln i n =>
    if i + n ≤ l.items.length then some { l with items := l.items.take i ++ l.items.drop (i + n) }
    else none
  | .delswap i =>
    if i < l.items.length then
      l.items.getLast?.map fun last => { l with items := (l.items.set i last).dropLast }
    else none
  | .clear => some { l with items := [] }

/-- How many elements an operation makes room for. -/
def ArrayOp.adds : ArrayOp → Nat
  | .init | .add _ | .addp _ => 1
  | .addn items => items.length
  | .pop | .del _ | .deln _ _ | .delswap _ | .clear => 0

/-! ### Elements of one size -/

section Flat

variable {tsize : Nat} {items : List (List UInt8)}

theorem flatten_length (sizes : ∀ v ∈ items, v.length = tsize) :
    items.flatten.length = tsize * items.length := by
  rw [List.length_flatten, List.map_congr_left sizes, List.map_const', List.sum_replicate_nat,
    Nat.mul_comm]

theorem flatten_sum (sizes : ∀ v ∈ items, v.length = tsize) {i : Nat} (inside : i ≤ items.length) :
    ((items.map List.length).take i).sum = tsize * i := by
  rw [List.map_congr_left sizes, List.map_const', List.take_replicate, List.sum_replicate_nat,
    Nat.min_eq_left inside, Nat.mul_comm]

theorem flatten_take (sizes : ∀ v ∈ items, v.length = tsize) {i : Nat} (inside : i ≤ items.length) :
    items.flatten.take (tsize * i) = (items.take i).flatten := by
  rw [← flatten_sum sizes inside, List.take_sum_flatten]

theorem flatten_drop (sizes : ∀ v ∈ items, v.length = tsize) {i : Nat} (inside : i ≤ items.length) :
    items.flatten.drop (tsize * i) = (items.drop i).flatten := by
  rw [← flatten_sum sizes inside, List.drop_sum_flatten]

end Flat

/-! ### Arrays that hold a list -/

/-- **The array holds the list**, with room for `cap` elements. -/
structure ArrayState.Holds (E : ArrayEnv) (s : ArrayState) (l : Listing) (cap : Nat) : Prop where
  base : s.a = s.block.1 + 24
  nonnull : 0 < s.block.1
  size : s.block.2 = E.tsize * cap + 24
  bounded : s.block.1 + s.block.2 ≤ 2 ^ 63
  length : s.mem.readNat s.block.1 8 = l.items.length
  capacity : s.mem.readNat (s.block.1 + 8) 8 = cap
  allocator : s.mem.readNat (s.block.1 + 16) 8 = E.address
  pos : 0 < cap
  room : l.items.length ≤ cap
  sizes : ∀ v ∈ l.items, v.length = E.tsize
  bytes : s.mem.load s.a (E.tsize * l.items.length) = l.items.flatten
  popped : s.popped = l.popped

section Arrays

variable {E : ArrayEnv} {s : ArrayState} {l : Listing} {cap : Nat}

theorem ArrayState.Holds.len_eq (holds : s.Holds E l cap) : arrayLen s = some l.items.length := by
  have base := holds.base
  have size := holds.size
  have inside : s.InBlock (s.a - 24 + 0) 8 := ⟨by omega, by omega⟩
  rw [arrayLen, ArrayState.header, if_neg (by omega), arrayHeaderSize, ArrayState.read, if_pos inside,
    Option.map_some, show s.a - 24 + 0 = s.block.1 by omega]
  exact congrArg some holds.length

theorem ArrayState.Holds.cap_eq (holds : s.Holds E l cap) : arrayCap s = some cap := by
  have base := holds.base
  have size := holds.size
  have inside : s.InBlock (s.a - 24 + 8) 8 := ⟨by omega, by omega⟩
  rw [arrayCap, ArrayState.header, if_neg (by omega), arrayHeaderSize, ArrayState.read, if_pos inside,
    Option.map_some, show s.a - 24 + 8 = s.block.1 + 8 by omega]
  exact congrArg some holds.capacity

theorem ArrayState.Holds.alc_eq (holds : s.Holds E l cap) : arrayAlc s = some E.address := by
  have base := holds.base
  have size := holds.size
  have inside : s.InBlock (s.a - 24 + 16) 8 := ⟨by omega, by omega⟩
  rw [arrayAlc, ArrayState.header, if_neg (by omega), arrayHeaderSize, ArrayState.read, if_pos inside,
    Option.map_some, show s.a - 24 + 16 = s.block.1 + 16 by omega]
  exact congrArg some holds.allocator

/-- The elements from index `i` up to index `j`. -/
theorem ArrayState.Holds.load_range (holds : s.Holds E l cap) {i j : Nat} (order : i ≤ j)
    (inside : j ≤ l.items.length) :
    s.mem.load (s.item E i) (E.tsize * (j - i)) = ((l.items.take j).drop i).flatten := by
  have sizes : ∀ v ∈ l.items.take j, v.length = E.tsize := fun v member =>
    holds.sizes v (List.mem_of_mem_take member)
  have count : (l.items.take j).length = j := by rw [List.length_take, Nat.min_eq_left inside]
  have whole : E.tsize * i + E.tsize * (j - i) = E.tsize * j := by
    rw [← Nat.mul_add, Nat.add_sub_cancel' order]
  have upTo : E.tsize * j ≤ E.tsize * l.items.length := Nat.mul_le_mul_left _ inside
  have front : s.mem.load s.a (E.tsize * j) = (l.items.take j).flatten := by
    have part : s.mem.load (s.a + 0) (E.tsize * j) =
        ((s.mem.load s.a (E.tsize * l.items.length)).drop 0).take (E.tsize * j) := load_part (by omega)
    rw [Nat.add_zero, List.drop_zero, holds.bytes, flatten_take holds.sizes inside] at part
    exact part
  have part : s.mem.load (s.a + E.tsize * i) (E.tsize * (j - i)) =
      ((s.mem.load s.a (E.tsize * j)).drop (E.tsize * i)).take (E.tsize * (j - i)) :=
        load_part (by omega)
  rw [ArrayState.item, part, front, flatten_drop sizes (by omega), List.take_of_length_le]
  rw [flatten_length fun v member => sizes v (List.mem_of_mem_drop member), List.length_drop, count]

/-- The bytes of elements up to the capacity are in the block. -/
theorem ArrayState.Holds.inBlock (holds : s.Holds E l cap) {i n : Nat} (inside : i + n ≤ cap) :
    s.InBlock (s.item E i) (E.tsize * n) := by
  have base := holds.base
  have size := holds.size
  have upTo : E.tsize * i + E.tsize * n ≤ E.tsize * cap := by
    rw [← Nat.mul_add]
    exact Nat.mul_le_mul_left _ inside
  exact ⟨by rw [ArrayState.item]; omega, by rw [ArrayState.item]; omega⟩

/-- **Elements are read.** -/
theorem ArrayState.Holds.read_range (holds : s.Holds E l cap) {i j : Nat} (order : i ≤ j)
    (inside : j ≤ l.items.length) :
    s.read (s.item E i) (E.tsize * (j - i)) = some ((l.items.take j).drop i).flatten := by
  have room := holds.room
  rw [ArrayState.read, if_pos (holds.inBlock (by omega)), holds.load_range order inside]

/-- **Elements are overwritten.** -/
theorem ArrayState.Holds.overwrite (holds : s.Holds E l cap) {i : Nat} {new : List (List UInt8)}
    (inside : i + new.length ≤ l.items.length) (sizes : ∀ v ∈ new, v.length = E.tsize) :
    ∃ s', s.write (s.item E i) new.flatten = some s' ∧
      s'.Holds E { l with items := l.items.take i ++ new ++ l.items.drop (i + new.length) } cap := by
  have room := holds.room
  have base := holds.base
  have bytes : new.flatten.length = E.tsize * new.length := flatten_length sizes
  let m := s.mem.store (s.item E i) new.flatten
  have change : ChangedWithin s.mem m (s.item E i) (E.tsize * new.length) := by
    rw [← bytes]
    exact store_changedWithin _ _ _
  have inBlock : s.InBlock (s.item E i) new.flatten.length := by
    rw [bytes]
    exact holds.inBlock (by omega)
  have header : ∀ k, k + 8 ≤ 24 → m.readNat (s.block.1 + k) 8 = s.mem.readNat (s.block.1 + k) 8 :=
    fun k le => readNat_congr (change.same (Or.inl (by rw [ArrayState.item]; omega)))
  have count : (l.items.take i ++ new ++ l.items.drop (i + new.length)).length = l.items.length := by
    rw [List.length_append, List.length_append, List.length_take, List.length_drop]
    omega
  refine ⟨{ s with mem := m }, if_pos inBlock, holds.base, holds.nonnull, holds.size, holds.bounded,
    (header 0 (by omega)).trans (holds.length.trans count.symm),
      (header 8 (by omega)).trans holds.capacity,
    (header 16 (by omega)).trans holds.allocator, holds.pos, by rw [count]; exact room, ?_, ?_,
    holds.popped⟩
  · intro v member
    rcases List.mem_append.mp member with front | behind
    · rcases List.mem_append.mp front with before | added
      · exact holds.sizes v (List.mem_of_mem_take before)
      · exact sizes v added
    · exact holds.sizes v (List.mem_of_mem_drop behind)
  · have before : m.load s.a (E.tsize * i) = (l.items.take i).flatten := by
      have part := holds.load_range (Nat.zero_le i) (by omega)
      rw [ArrayState.item, Nat.mul_zero, Nat.add_zero, Nat.sub_zero, List.drop_zero] at part
      exact (load_congr (change.same (Or.inl (Nat.le_refl (s.a + E.tsize * i))))).trans part
    have between : m.load (s.a + E.tsize * i) (E.tsize * new.length) = new.flatten := by
      rw [← bytes]
      exact load_store_same _ _ _
    have behind : m.load (s.a + E.tsize * (i + new.length))
        (E.tsize * (l.items.length - (i + new.length))) = (l.items.drop (i + new.length)).flatten := by
      have part := holds.load_range inside le_rfl
      rw [List.take_length] at part
      have further : s.item E i + E.tsize * new.length ≤ s.item E (i + new.length) := by
        rw [ArrayState.item, ArrayState.item, Nat.mul_add, Nat.add_assoc]
      exact (load_congr (change.same (Or.inr further))).trans part
    show m.load s.a (E.tsize * (l.items.take i ++ new ++ l.items.drop (i + new.length)).length) = _
    rw [count, show l.items.length = i + new.length + (l.items.length - (i + new.length)) by omega,
      Nat.mul_add, Nat.mul_add, load_append, load_append, before, between, ← Nat.mul_add,
      behind, List.flatten_append, List.flatten_append]

/-- The length is set. -/
theorem ArrayState.Holds.setLen (holds : s.Holds E l cap) {items : List (List UInt8)}
    (room : items.length ≤ cap) (small : cap < 2 ^ 63) (sizes : ∀ v ∈ items, v.length = E.tsize)
    (loaded : s.mem.load s.a (E.tsize * items.length) = items.flatten) :
    ∃ s', arraySetLen s items.length = some s' ∧ s'.Holds E { l with items := items } cap ∧
      s'.a = s.a ∧ ∀ p n, s.a ≤ p → s'.mem.load p n = s.mem.load p n := by
  have base := holds.base
  have size := holds.size
  have inside : s.InBlock (s.a - 24) (leBytes 8 items.length).length := by
    rw [leBytes_length]
    exact ⟨by omega, by omega⟩
  have change := writeNat_changedWithin s.mem (s.a - 24) 8 items.length
  have header : ∀ k, 8 ≤ k → (s.mem.writeNat (s.a - 24) 8 items.length).readNat (s.block.1 + k) 8 =
      s.mem.readNat (s.block.1 + k) 8 := fun k le =>
    readNat_congr (change.same (Or.inr (by omega)))
  have behind : ∀ p n, s.a ≤ p →
      (s.mem.writeNat (s.a - 24) 8 items.length).load p n = s.mem.load p n := fun p n le =>
    load_congr (change.same (Or.inr (by omega)))
  refine ⟨{ s with mem := s.mem.writeNat (s.a - 24) 8 items.length }, if_pos inside,
    ⟨holds.base, holds.nonnull, holds.size, holds.bounded, ?_, ?_, ?_, holds.pos, room, sizes, ?_,
      holds.popped⟩, rfl, behind⟩
  · show (s.mem.writeNat (s.a - 24) 8 items.length).readNat s.block.1 8 = items.length
    rw [show s.a - 24 = s.block.1 by omega]
    exact readNat_writeNat_lt (lt_of_le_of_lt room (small.trans (by norm_num)))
  · exact (header 8 le_rfl).trans holds.capacity
  · exact (header 16 (by omega)).trans holds.allocator
  · exact (behind s.a _ le_rfl).trans loaded

/-- **The length is set to a smaller one.** -/
theorem ArrayState.Holds.truncate (holds : s.Holds E l cap) (small : cap < 2 ^ 63) {k : Nat}
    (le : k ≤ l.items.length) :
    ∃ s', arraySetLen s k = some s' ∧ s'.Holds E { l with items := l.items.take k } cap ∧
      s'.a = s.a ∧ ∀ p n, s.a ≤ p → s'.mem.load p n = s.mem.load p n := by
  have count : (l.items.take k).length = k := by rw [List.length_take, Nat.min_eq_left le]
  have part := holds.load_range (Nat.zero_le k) le
  rw [ArrayState.item, Nat.mul_zero, Nat.add_zero, Nat.sub_zero, List.drop_zero] at part
  have set := holds.setLen (count.le.trans (le.trans holds.room)) small
    (fun v member => holds.sizes v (List.mem_of_mem_take member)) (count.symm ▸ part)
  rwa [count] at set

/-- The bytes of several elements, one behind the other. -/
theorem load_elements (m : Mem) (a tsize : Nat) : ∀ n,
    m.load a (tsize * n) = ((List.range n).map fun i => m.load (a + tsize * i) tsize).flatten
  | 0 => rfl
  | n + 1 => by
    rw [Nat.mul_succ, load_append, load_elements m a tsize n, List.range_succ, List.map_append,
      List.flatten_append]
    simp

/-- **The length is set to a larger one**: whatever is behind the last element becomes elements. -/
theorem ArrayState.Holds.extend (holds : s.Holds E l cap) (small : cap < 2 ^ 63) {n : Nat}
    (le : l.items.length + n ≤ cap) :
    ∃ s' more, arraySetLen s (l.items.length + n) = some s' ∧ more.length = n ∧
      s'.Holds E { l with items := l.items ++ more } cap ∧ s'.a = s.a := by
  let more := (List.range n).map fun i => s.mem.load (s.item E l.items.length + E.tsize * i) E.tsize
  have count : more.length = n := by rw [List.length_map, List.length_range]
  have total : (l.items ++ more).length = l.items.length + n := by rw [List.length_append, count]
  have sizes : ∀ v ∈ l.items ++ more, v.length = E.tsize := by
    intro v member
    rcases List.mem_append.mp member with old | new
    · exact holds.sizes v old
    · obtain ⟨i, -, rfl⟩ := List.mem_map.mp new
      exact load_length
  have loaded : s.mem.load s.a (E.tsize * (l.items ++ more).length) = (l.items ++ more).flatten := by
    rw [total, Nat.mul_add, load_append, holds.bytes, List.flatten_append]
    exact congrArg _ (load_elements s.mem _ E.tsize n)
  obtain ⟨s', set, holds', place, -⟩ := holds.setLen (total.le.trans le) small sizes loaded
  rw [total] at set
  exact ⟨s', more, set, count, holds', place⟩

/-! ### Growing -/

theorem growCap_le {cap mincap : Nat} (more : cap < mincap) :
    mincap ≤ growCap cap mincap ∧ growCap cap mincap ≤ 2 * mincap + 4 := by
  unfold growCap
  split
  · omega
  · split <;> omega

/-- The parameters of an array: elements are not empty, and the allocator has an address. -/
structure ArrayEnv.Valid (E : ArrayEnv) : Prop where
  tsize : 0 < E.tsize
  address : E.address < 2 ^ 64

/-- Requests of up to `limit` bytes are granted. -/
def ArrayEnv.Grants (E : ArrayEnv) (limit : Nat) : Prop :=
  ∀ m ptr prevsize newsize, newsize ≤ limit → (E.alloc.realloc m ptr prevsize newsize).isSome = true

theorem ArrayState.Holds.cap_lt (holds : s.Holds E l cap) (valid : E.Valid) : cap < 2 ^ 63 := by
  have size := holds.size
  have bounded := holds.bounded
  have each : cap ≤ E.tsize * cap := Nat.le_mul_of_pos_left cap valid.tsize
  omega

/-- **The array that a null pointer becomes** holds the empty list. -/
theorem arrayInit_holds {limit : Nat} (valid : E.Valid) (grants : E.Grants limit)
    (fits : E.tsize * 4 + 24 ≤ limit) (mem : Mem) :
    ∃ s, arrayInit E ⟨mem, 0, (0, 0), []⟩ = some s ∧ s.Holds E ⟨[], []⟩ 4 := by
  obtain ⟨⟨block, m⟩, granted⟩ := Option.isSome_iff_exists.mp (grants mem 0 0 (E.tsize * 4 + 24) fits)
  obtain ⟨nonnull, bounded⟩ := E.alloc.bounded granted
  let size := E.tsize * 4 + 24
  have inside : ∀ {m : Mem} {k : Nat} {v : Nat}, k + 8 ≤ 24 →
      ArrayState.InBlock ⟨m, block + 24, (block, size), []⟩ (block + k) (leBytes 8 v).length := by
    intro m k v le
    rw [leBytes_length]
    exact ⟨Nat.le_add_right _ _, show block + k + 8 ≤ block + (E.tsize * 4 + 24) by omega⟩
  let m₁ := m.writeNat block 8 0
  let m₂ := m₁.writeNat (block + 16) 8 E.address
  let m₃ := m₂.writeNat (block + 8) 8 4
  have result : arrayInit E ⟨mem, 0, (0, 0), []⟩ = some ⟨m₃, block + 24, (block, size), []⟩ := by
    have first : ArrayState.write ⟨m, block + 24, (block, size), []⟩ block (leBytes 8 0) =
        some ⟨m₁, block + 24, (block, size), []⟩ := if_pos (inside (k := 0) (by omega))
    have second : ArrayState.write ⟨m₁, block + 24, (block, size), []⟩ (block + 16)
        (leBytes 8 E.address) = some ⟨m₂, block + 24, (block, size), []⟩ :=
      if_pos (inside (k := 16) (by omega))
    have third : ArrayState.write ⟨m₂, block + 24, (block, size), []⟩ (block + 8) (leBytes 8 4) =
        some ⟨m₃, block + 24, (block, size), []⟩ := if_pos (inside (k := 8) (by omega))
    show arrayMove E ⟨mem, 0, (0, 0), []⟩ 0 4 E.address = _
    rw [arrayMove, if_neg (not_not.mpr rfl)]
    show ((E.alloc.realloc mem 0 0 (E.tsize * 4 + 24)).bind _) = _
    rw [granted, Option.bind_some]
    show ((ArrayState.write ⟨m, block + 24, (block, size), []⟩ block (leBytes 8 0)).bind _).bind _ = _
    rw [first, Option.bind_some]
    show (ArrayState.write ⟨m₁, block + 24, (block, size), []⟩ (block + 16)
      (leBytes 8 E.address)).bind _ = _
    rw [second, Option.bind_some]
    exact third
  refine ⟨_, result, rfl, nonnull, rfl, bounded, ?_, ?_, ?_, by norm_num, Nat.zero_le _,
    fun v member => absurd member List.not_mem_nil, rfl, rfl⟩
  · have change := writeNat_changedWithin m₂ (block + 8) 8 4
    have change' := writeNat_changedWithin m₁ (block + 16) 8 E.address
    show m₃.readNat block 8 = 0
    rw [readNat_congr (change.same (Or.inl (by omega))), readNat_congr
      (change'.same (Or.inl (by omega)))]
    exact readNat_writeNat_lt (by norm_num)
  · exact readNat_writeNat_lt (by norm_num)
  · have change := writeNat_changedWithin m₂ (block + 8) 8 4
    show m₃.readNat (block + 16) 8 = E.address
    rw [readNat_congr (change.same (Or.inr (by omega)))]
    exact readNat_writeNat_lt valid.address

/-- **A larger block holds the same list**, with the same allocator. -/
theorem arrayMove_holds {limit newcap : Nat} (valid : E.Valid) (grants : E.Grants limit)
    (holds : s.Holds E l cap) (more : cap ≤ newcap) (fits : E.tsize * newcap + 24 ≤ limit) :
    ∃ s', arrayMove E s cap newcap E.address = some s' ∧ s'.Holds E l newcap := by
  have base := holds.base
  have size := holds.size
  obtain ⟨⟨block, m⟩, granted⟩ := Option.isSome_iff_exists.mp
    (grants s.mem s.block.1 (E.tsize * cap + 24) (E.tsize * newcap + 24) fits)
  obtain ⟨nonnull, bounded⟩ := E.alloc.bounded granted
  have wider : E.tsize * cap ≤ E.tsize * newcap := Nat.mul_le_mul_left _ more
  have moved : ∀ k n, k + n ≤ E.tsize * cap + 24 → m.load (block + k) n = s.mem.load (s.block.1 + k) n :=
    fun k n le => E.alloc.load_keeps granted le (by omega)
  let m' := m.writeNat (block + 8) 8 newcap
  have change := writeNat_changedWithin m (block + 8) 8 newcap
  have inside : ArrayState.InBlock ⟨m, block + 24, (block, E.tsize * newcap + 24), s.popped⟩ (block + 8)
      (leBytes 8 newcap).length := by
    rw [leBytes_length]
    exact ⟨Nat.le_add_right _ _, show block + 8 + 8 ≤ block + (E.tsize * newcap + 24) by omega⟩
  have small : newcap < 2 ^ 64 := by
    have each : newcap ≤ E.tsize * newcap := Nat.le_mul_of_pos_left newcap valid.tsize
    omega
  refine ⟨⟨m', block + 24, (block, E.tsize * newcap + 24), s.popped⟩, ?_, rfl, nonnull, rfl, bounded,
    ?_, readNat_writeNat_lt small, ?_, lt_of_lt_of_le holds.pos more, holds.room.trans more,
    holds.sizes, ?_, holds.popped⟩
  · rw [arrayMove, if_neg (not_not.mpr rfl), if_neg (show ¬ s.a = 0 by omega),
      if_neg (Nat.pos_iff_ne_zero.mp holds.pos), arrayHeaderSize, show s.a - 24 = s.block.1 by omega,
      granted, Option.bind_some]
    simp only [if_neg (show ¬ s.a = 0 by omega), Option.bind_some]
    exact if_pos inside
  · have first : m.load block 8 = s.mem.load s.block.1 8 := moved 0 8 (by omega)
    show m'.readNat block 8 = _
    rw [readNat_congr (change.same (Or.inl (by omega))), Mem.readNat, first]
    exact holds.length
  · show m'.readNat (block + 16) 8 = _
    rw [readNat_congr (change.same (Or.inr (by omega))), Mem.readNat, moved 16 8 (by omega)]
    exact holds.allocator
  · have part : E.tsize * l.items.length ≤ E.tsize * cap := Nat.mul_le_mul_left _ holds.room
    show m'.load (block + 24) _ = _
    rw [load_congr (change.same (Or.inr (by omega))), moved 24 _ (by omega), ← base]
    exact holds.bytes

/-- **`vd_array_grow`** keeps the list and makes room for `n` more elements. -/
theorem arrayGrow_holds {limit n : Nat} (valid : E.Valid) (grants : E.Grants limit)
    (holds : s.Holds E l cap) (fits : E.tsize * (2 * (l.items.length + n) + 4) + 24 ≤ limit) :
    ∃ s' cap', arrayGrow E s n 0 E.address = some s' ∧ s'.Holds E l cap' ∧
      l.items.length + n ≤ cap' := by
  have result : arrayGrow E s n 0 E.address =
      if l.items.length + n ≤ cap then some s
      else arrayMove E s cap (growCap cap (l.items.length + n)) E.address := by
    rw [arrayGrow, holds.len_eq, Option.bind_some, holds.cap_eq, Option.bind_some]
    have least : (if 0 < l.items.length + n then l.items.length + n else 0) = l.items.length + n := by
      split <;> omega
    simp only [least]
  rw [result]
  by_cases enough : l.items.length + n ≤ cap
  · exact ⟨s, cap, if_pos enough, holds, enough⟩
  · obtain ⟨low, high⟩ := growCap_le (Nat.not_le.mp enough)
    have bytes : E.tsize * growCap cap (l.items.length + n) ≤
        E.tsize * (2 * (l.items.length + n) + 4) := Nat.mul_le_mul_left _ high
    have more : cap ≤ growCap cap (l.items.length + n) := by omega
    obtain ⟨s', moved, holds'⟩ := arrayMove_holds valid grants holds more (by omega)
    exact ⟨s', _, (if_neg enough).trans moved, holds', low⟩

/-- **`VD_ARRAY_CHECK_GROW`** does too. -/
theorem arrayCheckGrow_holds {limit n : Nat} (valid : E.Valid) (grants : E.Grants limit)
    (holds : s.Holds E l cap) (fits : E.tsize * (2 * (l.items.length + n) + 4) + 24 ≤ limit) :
    ∃ s' cap', arrayCheckGrow E s n = some s' ∧ s'.Holds E l cap' ∧ l.items.length + n ≤ cap' := by
  have base := holds.base
  have result : arrayCheckGrow E s n =
      if cap < l.items.length + n then arrayGrow E s n 0 E.address else some s := by
    rw [arrayCheckGrow, holds.len_eq, Option.bind_some, holds.cap_eq, Option.bind_some, holds.alc_eq,
      Option.bind_some]
    have nonnull : ¬ s.a = 0 := by omega
    simp only [nonnull, false_or]
  rw [result]
  by_cases full : cap < l.items.length + n
  · rw [if_pos full]
    exact arrayGrow_holds valid grants holds fits
  · rw [if_neg full]
    exact ⟨s, cap, rfl, holds, Nat.not_lt.mp full⟩

/-! ### The operations -/

/-- **`VD_ARRAY_ADDN`** appends. -/
theorem arrayAddn_holds {limit : Nat} (valid : E.Valid) (grants : E.Grants limit)
    (holds : s.Holds E l cap) {items : List (List UInt8)} (sizes : ∀ v ∈ items, v.length = E.tsize)
    (fits : E.tsize * (2 * (l.items.length + items.length) + 4) + 24 ≤ limit) :
    ∃ s' cap', arrayAddn E s items = some s' ∧ s'.Holds E { l with items := l.items ++ items } cap' := by
  obtain ⟨s₁, cap₁, grown, holds₁, enough⟩ := arrayCheckGrow_holds valid grants holds fits
  obtain ⟨s₂, more, set, count, holds₂, place⟩ := holds₁.extend (holds₁.cap_lt valid) enough
  have inside : l.items.length + items.length ≤ (l.items ++ more).length := by
    rw [List.length_append, count]
  obtain ⟨s₃, written, holds₃⟩ := holds₂.overwrite inside sizes
  have final : (l.items ++ more).take l.items.length ++ items ++
      (l.items ++ more).drop (l.items.length + items.length) = l.items ++ items := by
    rw [List.take_left, ← count, ← List.length_append, List.drop_length, List.append_nil]
  rw [final] at holds₃
  refine ⟨s₃, cap₁, ?_, holds₃⟩
  rw [arrayAddn, grown, Option.bind_some, holds₁.len_eq, Option.bind_some, set, Option.bind_some]
  exact written

/-- `VD_ARRAY_ADD` appends one element. -/
theorem arrayAdd_eq (v : List UInt8) : arrayAdd E s v = arrayAddn E s [v] := by
  simp [arrayAdd, arrayAddn]

/-- The bytes of the last element. -/
theorem ArrayState.Holds.load_last (holds : s.Holds E l cap) {v : List UInt8}
    (last : l.items.getLast? = some v) :
    0 < l.items.length ∧ s.mem.load (s.item E (l.items.length - 1)) E.tsize = v := by
  obtain ⟨front, split⟩ := List.getLast?_eq_some_iff.mp last
  have count : l.items.length = front.length + 1 := by rw [split, List.length_append]; rfl
  have part := holds.load_range (Nat.sub_le l.items.length 1) le_rfl
  have behind : l.items.drop (l.items.length - 1) = [v] := by
    rw [count, split, Nat.add_sub_cancel, List.drop_left]
  rw [Nat.sub_sub_self (by omega), Nat.mul_one, List.take_length, behind] at part
  exact ⟨by omega, part.trans (List.flatten_singleton)⟩

/-- **`VD_ARRAY_POP`** removes the last element and returns it. -/
theorem arrayPop_holds (valid : E.Valid) (holds : s.Holds E l cap) {v : List UInt8}
    (last : l.items.getLast? = some v) :
    ∃ s', arrayPop E s = some s' ∧ s'.Holds E ⟨l.items.dropLast, l.popped ++ [v]⟩ cap := by
  obtain ⟨pos, part⟩ := holds.load_last last
  have room := holds.room
  obtain ⟨s₁, set, holds₁, place, same⟩ :=
    holds.truncate (holds.cap_lt valid) (Nat.sub_le l.items.length 1)
  rw [← List.dropLast_eq_take] at holds₁
  have read : s₁.read (s₁.item E (l.items.length - 1)) E.tsize = some v := by
    have inBlock := holds₁.inBlock (show l.items.length - 1 + 1 ≤ cap by omega)
    rw [Nat.mul_one] at inBlock
    rw [ArrayState.read, if_pos inBlock, ArrayState.item, place, same _ _ (Nat.le_add_right _ _)]
    exact congrArg some part
  refine ⟨{ s₁ with popped := s₁.popped ++ [v] }, ?_, { holds₁ with popped := ?_ }⟩
  · rw [arrayPop, holds.len_eq, Option.bind_some, set, Option.bind_some, read]
    rfl
  · exact congrArg (· ++ [v]) holds₁.popped

/-- **`VD_ARRAY_DELN`** removes a range. -/
theorem arrayDeln_holds (valid : E.Valid) (holds : s.Holds E l cap) {i n : Nat}
    (inside : i + n ≤ l.items.length) :
    ∃ s', arrayDeln E s i n = some s' ∧
      s'.Holds E { l with items := l.items.take i ++ l.items.drop (i + n) } cap := by
  let moved := l.items.drop (i + n)
  have count : moved.length = l.items.length - (i + n) := List.length_drop
  have read := holds.read_range inside le_rfl
  rw [List.take_length] at read
  obtain ⟨s₁, written, holds₁⟩ := holds.overwrite (show i + moved.length ≤ l.items.length by omega)
    fun v member => holds.sizes v (List.mem_of_mem_drop member)
  have kept : (l.items.take i ++ moved).length = l.items.length - n := by
    rw [List.length_append, List.length_take, count]
    omega
  obtain ⟨s₂, set, holds₂, -⟩ := holds₁.truncate (holds₁.cap_lt valid)
    (show l.items.length - n ≤ (l.items.take i ++ moved ++ l.items.drop (i + moved.length)).length by
      rw [List.length_append, kept]
      omega)
  rw [← kept, List.take_left] at holds₂
  refine ⟨s₂, ?_, holds₂⟩
  rw [arrayDeln, holds.len_eq, Option.bind_some, show l.items.length - n - i = l.items.length -
    (i + n) by omega,
    read, Option.bind_some, written, Option.bind_some]
  exact set

/-- **`VD_ARRAY_DELSWAP`** puts the last element in the place of another one. -/
theorem arrayDelswap_holds (valid : E.Valid) (holds : s.Holds E l cap) {i : Nat} {last : List UInt8}
    (inside : i < l.items.length) (isLast : l.items.getLast? = some last) :
    ∃ s', arrayDelswap E s i = some s' ∧
      s'.Holds E { l with items := (l.items.set i last).dropLast } cap := by
  obtain ⟨pos, part⟩ := holds.load_last isLast
  have room := holds.room
  have read : s.read (s.item E (l.items.length - 1)) E.tsize = some last := by
    have inBlock := holds.inBlock (show l.items.length - 1 + 1 ≤ cap by omega)
    rw [Nat.mul_one] at inBlock
    rw [ArrayState.read, if_pos inBlock, part]
  have size : last.length = E.tsize := holds.sizes last (List.mem_of_getLast? isLast)
  obtain ⟨s₁, written, holds₁⟩ := holds.overwrite (show i + [last].length ≤ l.items.length from inside)
    fun v member => (List.mem_singleton.mp member).symm ▸ size
  rw [List.flatten_singleton] at written
  have set : l.items.take i ++ [last] ++ l.items.drop (i + 1) = l.items.set i last := by
    rw [List.set_eq_take_append_cons_drop, if_pos inside, List.append_assoc, List.singleton_append]
  have count : (l.items.set i last).length = l.items.length := List.length_set
  rw [List.length_singleton, set] at holds₁
  obtain ⟨s₂, shorter, holds₂, -⟩ := holds₁.truncate (holds₁.cap_lt valid)
    (Nat.sub_le (l.items.set i last).length 1)
  rw [← List.dropLast_eq_take] at holds₂
  rw [count] at shorter
  refine ⟨s₂, ?_, holds₂⟩
  rw [arrayDelswap, holds.len_eq, Option.bind_some, read, Option.bind_some, written, Option.bind_some]
  exact shorter

/-- **One operation.** A list operation with indices and counts in range is performed by the array,
which holds the list that comes out. -/
theorem arrayStep_holds {limit : Nat} (valid : E.Valid) (grants : E.Grants limit)
    (holds : s.Holds E l cap) {op : ArrayOp} {l' : Listing} (step : listStep E.tsize l op = some l')
    (fits : E.tsize * (2 * (l.items.length + op.adds) + 4) + 24 ≤ limit) :
    ∃ s' cap', arrayStep E s op = some s' ∧ s'.Holds E l' cap' ∧
      l'.items.length ≤ l.items.length + op.adds := by
  have add : ∀ items, (∀ v ∈ items, v.length = E.tsize) →
      E.tsize * (2 * (l.items.length + items.length) + 4) + 24 ≤ limit →
      ∃ s' cap', arrayAddn E s items = some s' ∧ s'.Holds E { l with items := l.items ++ items } cap' ∧
        (l.items ++ items).length ≤ l.items.length + items.length := by
    intro items sizes fits
    obtain ⟨s', cap', added, holds'⟩ := arrayAddn_holds valid grants holds sizes fits
    exact ⟨s', cap', added, holds', List.length_append.le⟩
  have one : ∀ v, (if v.length = E.tsize then some { l with items := l.items ++ [v] } else none) =
    some l' →
      E.tsize * (2 * (l.items.length + 1) + 4) + 24 ≤ limit →
      ∃ s' cap', arrayAdd E s v = some s' ∧ s'.Holds E l' cap' ∧
        l'.items.length ≤ l.items.length + 1 := by
    intro v step fits
    obtain ⟨size, same⟩ := Option.ite_none_right_eq_some.mp step
    cases same
    rw [arrayAdd_eq]
    exact add [v] (fun w member => (List.mem_singleton.mp member).symm ▸ size) fits
  cases op with
  | init =>
    cases step
    obtain ⟨s', cap', grown, holds', -⟩ := arrayGrow_holds valid grants holds fits
    exact ⟨s', cap', grown, holds', Nat.le_succ _⟩
  | add v => exact one v step fits
  | addp v => exact one v step fits
  | addn items =>
    obtain ⟨sizes, same⟩ := Option.ite_none_right_eq_some.mp step
    cases same
    exact add items sizes fits
  | pop =>
    obtain ⟨v, last, rfl⟩ := Option.map_eq_some_iff.mp step
    obtain ⟨s', popped, holds'⟩ := arrayPop_holds valid holds last
    exact ⟨s', cap, popped, holds', (List.length_dropLast.le).trans (Nat.sub_le _ _)⟩
  | del i =>
    obtain ⟨inside, same⟩ := Option.ite_none_right_eq_some.mp step
    cases same
    obtain ⟨s', deleted, holds'⟩ := arrayDeln_holds valid holds (show i + 1 ≤ l.items.length from inside)
    refine ⟨s', cap, deleted, holds', ?_⟩
    simp only [List.length_append, List.length_take, List.length_drop]
    omega
  | deln i n =>
    obtain ⟨inside, same⟩ := Option.ite_none_right_eq_some.mp step
    cases same
    obtain ⟨s', deleted, holds'⟩ := arrayDeln_holds valid holds inside
    refine ⟨s', cap, deleted, holds', ?_⟩
    simp only [List.length_append, List.length_take, List.length_drop]
    omega
  | delswap i =>
    obtain ⟨inside, swapped⟩ := Option.ite_none_right_eq_some.mp step
    obtain ⟨last, isLast, rfl⟩ := Option.map_eq_some_iff.mp swapped
    obtain ⟨s', deleted, holds'⟩ := arrayDelswap_holds valid holds inside isLast
    refine ⟨s', cap, deleted, holds', ?_⟩
    simp only [List.length_dropLast, List.length_set]
    omega
  | clear =>
    cases step
    obtain ⟨s', cleared, holds', -⟩ := holds.truncate (holds.cap_lt valid) (Nat.zero_le _)
    exact ⟨s', cap, cleared, holds', Nat.zero_le _⟩

/-- The operations of a run: the elements that are added bound the length. -/
theorem arrayRun_holds {limit : Nat} (valid : E.Valid) (grants : E.Grants limit) :
    ∀ {ops : List ArrayOp} {s : ArrayState} {l l' : Listing} {cap : Nat}, s.Holds E l cap →
      run (listStep E.tsize) l ops = some l' →
      E.tsize * (2 * (l.items.length + (ops.map ArrayOp.adds).sum) + 4) + 24 ≤ limit →
      ∃ s' cap', run (arrayStep E) s ops = some s' ∧ s'.Holds E l' cap'
  | [], s, l, l', cap, holds, ran, _ => by
    cases ran
    exact ⟨s, cap, rfl, holds⟩
  | op :: rest, s, l, l', cap, holds, ran, fits => by
    obtain ⟨next, step, later⟩ := run_cons_some.mp ran
    rw [List.map_cons, List.sum_cons] at fits
    have sooner : E.tsize * (2 * (l.items.length + op.adds) + 4) ≤
        E.tsize * (2 * (l.items.length + (op.adds + (rest.map ArrayOp.adds).sum)) + 4) :=
      Nat.mul_le_mul_left _ (by omega)
    obtain ⟨s₁, cap₁, first, holds₁, longer⟩ := arrayStep_holds valid grants holds step (by omega)
    have further : E.tsize * (2 * (next.items.length + (rest.map ArrayOp.adds).sum) + 4) ≤
        E.tsize * (2 * (l.items.length + (op.adds + (rest.map ArrayOp.adds).sum)) + 4) :=
      Nat.mul_le_mul_left _ (by omega)
    obtain ⟨s', cap', ran', holds'⟩ := arrayRun_holds valid grants holds₁ later (by omega)
    exact ⟨s', cap', run_cons_some.mpr ⟨s₁, first, ran'⟩, holds'⟩

end Arrays

/-! ### Whole runs -/

/-- **The array refines the list.** From a null pointer, a run of operations whose indices and counts
are in range for the list is a run on the array. It accesses nothing outside of the block, and at its
end the array holds the list: its length, at most the capacity, its elements, what was popped, and the
allocator. -/
theorem arrayRun_refines (E : ArrayEnv) (valid : E.Valid) {limit : Nat} (grants : E.Grants limit)
    {ops : List ArrayOp} {l : Listing} (ran : run (listStep E.tsize) ⟨[], []⟩ ops = some l)
    (fits : E.tsize * (2 * (ops.map ArrayOp.adds).sum + 4) + 24 ≤ limit) (mem : Mem) :
    ∃ s cap, arrayRun E mem ops = some s ∧ s.Holds E l cap := by
  have least : E.tsize * 4 ≤ E.tsize * (2 * (ops.map ArrayOp.adds).sum + 4) :=
    Nat.mul_le_mul_left _ (by omega)
  obtain ⟨s₀, started, holds₀⟩ := arrayInit_holds valid grants (by omega) mem
  obtain ⟨s, cap, ran', holds⟩ := arrayRun_holds valid grants holds₀ ran (by simpa using fits)
  exact ⟨s, cap, by rw [arrayRun, started, Option.bind_some]; exact ran', holds⟩

/-- An array of two-byte elements in a heap of one block. -/
def pairArray : ArrayEnv := ⟨Realloc.single, 4096, 2⟩

theorem arrayRun_refines_pairs : ∃ s cap,
    arrayRun pairArray (fun _ => 0) [.addn [[1, 0], [2, 0], [3, 0], [4, 0], [5, 0]], .deln 1 2,
      .add [6, 0],
      .delswap 0, .pop] = some s ∧ s.Holds pairArray ⟨[[6, 0], [4, 0]], [[5, 0]]⟩ cap :=
  arrayRun_refines pairArray ⟨by decide, by decide⟩ Realloc.single_grants (by decide) (by decide) _

end Vaudou
