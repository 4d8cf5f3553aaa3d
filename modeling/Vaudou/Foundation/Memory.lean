/-
**A flat byte memory.**

`Mem` maps every address to a byte. `load` and `store` move byte lists, `readNat`/`writeNat` unsigned
and `readInt`/`writeInt` two's complement integers of `width` bytes, least significant byte first.

Everything that is proved about a store is one of two facts: what is read back where it was written
(`load_store_same`, `readNat_writeNat`, `readInt_writeInt`), and that a read elsewhere does not see
it (`load_congr` with `store_outside`; `Same` and `ChangedWithin` name the two sides of a frame).

`Realloc` is the contract of a `realloc`-style allocation procedure.
-/

import Mathlib.Algebra.Order.Ring.Nat
import Mathlib.Data.List.Basic
import Mathlib.Tactic.Common
import Mathlib.Tactic.Linarith

namespace Vaudou.Memory

/-- A memory: the byte at every address. -/
abbrev Mem := Nat → UInt8

/-- Write the bytes from `a` on. -/
def Mem.store (m : Mem) (a : Nat) (bytes : List UInt8) : Mem := fun x =>
  if a ≤ x then (bytes[x - a]?).getD (m x) else m x

/-- The `n` bytes from `a` on. -/
def Mem.load (m : Mem) (a n : Nat) : List UInt8 := (List.range n).map fun i => m (a + i)

/-- The two memories hold the same `n` bytes from `a` on. -/
def Same (m m' : Mem) (a n : Nat) : Prop := ∀ x, a ≤ x → x < a + n → m' x = m x

/-- The second memory differs from the first only in the `n` bytes from `a` on. -/
def ChangedWithin (m m' : Mem) (a n : Nat) : Prop := ∀ x, x < a ∨ a + n ≤ x → m' x = m x

section Bytes

variable {m m' m'' : Mem} {a b n k : Nat} {bytes : List UInt8}

theorem store_outside {x : Nat} (outside : x < a ∨ a + bytes.length ≤ x) :
    m.store a bytes x = m x := by
  unfold Mem.store
  split
  · rw [List.getElem?_eq_none (by omega)]
    rfl
  · rfl

theorem store_inside {i : Nat} (inside : i < bytes.length) :
    m.store a bytes (a + i) = bytes[i] := by
  simp [Mem.store, inside]

theorem store_changedWithin (m : Mem) (a : Nat) (bytes : List UInt8) :
    ChangedWithin m (m.store a bytes) a bytes.length :=
  fun _ outside => store_outside outside

@[simp] theorem load_length : (m.load a n).length = n := by simp [Mem.load]

theorem load_getElem {i : Nat} (inside : i < (m.load a n).length) :
    (m.load a n)[i] = m (a + i) := by
  simp [Mem.load]

/-- **A load sees only its own bytes.** -/
theorem load_congr (same : Same m m' a n) : m'.load a n = m.load a n := by
  unfold Mem.load
  refine List.map_congr_left fun i member => ?_
  have := List.mem_range.mp member
  exact same (a + i) (by omega) (by omega)

/-- **A load returns what was stored.** -/
theorem load_store_same (m : Mem) (a : Nat) (bytes : List UInt8) :
    (m.store a bytes).load a bytes.length = bytes := by
  refine List.ext_getElem (by simp) fun i _ inside => ?_
  rw [load_getElem, store_inside inside]

@[simp] theorem store_nil (m : Mem) (a : Nat) : m.store a [] = m := by
  funext x
  simp [Mem.store]

/-- Two stores, one behind the other, are one. -/
theorem store_append (m : Mem) (a : Nat) (first second : List UInt8) :
    m.store a (first ++ second) = (m.store a first).store (a + first.length) second := by
  funext x
  by_cases inFirst : x < a + first.length
  · rw [store_outside (Or.inl inFirst)]
    by_cases below : x < a
    · rw [store_outside (Or.inl below), store_outside (Or.inl below)]
    · obtain ⟨i, rfl⟩ : ∃ i, x = a + i := ⟨x - a, by omega⟩
      have inside : i < first.length := by omega
      rw [store_inside (by rw [List.length_append]; omega), store_inside inside,
        List.getElem_append_left inside]
  · by_cases inSecond : x < a + first.length + second.length
    · obtain ⟨i, rfl⟩ : ∃ i, x = a + first.length + i := ⟨x - (a + first.length), by omega⟩
      have inside : i < second.length := by omega
      rw [store_inside inside]
      simp only [Nat.add_assoc]
      rw [store_inside (by rw [List.length_append]; omega), List.getElem_append_right (by omega)]
      simp
    · rw [store_outside (Or.inr (by rw [List.length_append]; omega)),
        store_outside (Or.inr (by omega)), store_outside (Or.inr (by omega))]

theorem load_append : m.load a (n + k) = m.load a n ++ m.load (a + n) k := by
  unfold Mem.load
  rw [List.range_add, List.map_append, List.map_map]
  refine congrArg _ (List.map_congr_left fun i _ => ?_)
  simp [Nat.add_assoc]

/-- A part of a loaded region. -/
theorem load_part (inside : k + b ≤ n) : m.load (a + k) b = ((m.load a n).drop k).take b := by
  refine List.ext_getElem (by simp; omega) fun i low _ => ?_
  simp only [List.getElem_take, List.getElem_drop]
  rw [load_getElem, load_getElem, Nat.add_assoc]

end Bytes

section Frames

variable {m m' m'' : Mem} {a b n k : Nat}

theorem Same.refl (m : Mem) (a n : Nat) : Same m m a n := fun _ _ _ => rfl

theorem Same.symm (same : Same m m' a n) : Same m' m a n :=
  fun x low high => (same x low high).symm

theorem Same.trans (first : Same m m' a n) (second : Same m' m'' a n) : Same m m'' a n :=
  fun x low high => (second x low high).trans (first x low high)

/-- A part of an unchanged region is unchanged. -/
theorem Same.part (same : Same m m' a n) (low : a ≤ b) (high : b + k ≤ a + n) : Same m m' b k :=
  fun x lowX highX => same x (by omega) (by omega)

theorem ChangedWithin.refl (m : Mem) (a n : Nat) : ChangedWithin m m a n := fun _ _ => rfl

theorem ChangedWithin.trans (first : ChangedWithin m m' a n) (second : ChangedWithin m' m'' a n) :
    ChangedWithin m m'' a n :=
  fun x outside => (second x outside).trans (first x outside)

/-- A change within a part is a change within the whole. -/
theorem ChangedWithin.widen (change : ChangedWithin m m' b k) (low : a ≤ b)
    (high : b + k ≤ a + n) : ChangedWithin m m' a n :=
  fun x outside => change x (by omega)

/-- **The frame.** A region apart from the change holds the same bytes. -/
theorem ChangedWithin.same (change : ChangedWithin m m' a n) (apart : b + k ≤ a ∨ a + n ≤ b) :
    Same m m' b k :=
  fun x low high => change x (by omega)

end Frames

/-! ### Integers -/

/-- The `width` low bytes of a natural, least significant first. -/
def leBytes : (width value : Nat) → List UInt8
  | 0, _ => []
  | width + 1, value => UInt8.ofNat value :: leBytes width (value / 256)

/-- The natural that the bytes denote, least significant first. -/
def leValue (bytes : List UInt8) : Nat := bytes.foldr (fun byte high => byte.toNat + 256 * high) 0

/-- An unsigned integer of `width` bytes at `a`. -/
def Mem.readNat (m : Mem) (a width : Nat) : Nat := leValue (m.load a width)

/-- Write an unsigned integer; bits above the width are dropped. -/
def Mem.writeNat (m : Mem) (a width value : Nat) : Mem := m.store a (leBytes width value)

/-- A two's complement integer of `width` bytes at `a`. -/
def Mem.readInt (m : Mem) (a width : Nat) : Int := Int.bmod (m.readNat a width) (256 ^ width)

/-- Write a two's complement integer. -/
def Mem.writeInt (m : Mem) (a width : Nat) (value : Int) : Mem :=
  m.writeNat a width (value % (256 ^ width : Nat)).toNat

section Integers

variable {m m' : Mem} {a width : Nat}

@[simp] theorem leBytes_length : ∀ width value, (leBytes width value).length = width
  | 0, _ => rfl
  | width + 1, value => congrArg Nat.succ (leBytes_length width (value / 256))

/-- The bytes of a natural denote it, up to the width. -/
theorem leValue_leBytes : ∀ width value, leValue (leBytes width value) = value % 256 ^ width
  | 0, value => by simp [leBytes, leValue, Nat.mod_one]
  | width + 1, value => by
    have tail := leValue_leBytes width (value / 256)
    have head : (UInt8.ofNat value).toNat = value % 256 := by simp
    show (UInt8.ofNat value).toNat + 256 * leValue (leBytes width (value / 256)) = _
    rw [head, tail, pow_succ, Nat.mul_comm (256 ^ width) 256, Nat.mod_mul]

theorem writeNat_changedWithin (m : Mem) (a width value : Nat) :
    ChangedWithin m (m.writeNat a width value) a width := by
  have change := store_changedWithin m a (leBytes width value)
  rwa [leBytes_length] at change

theorem writeInt_changedWithin (m : Mem) (a width : Nat) (value : Int) :
    ChangedWithin m (m.writeInt a width value) a width := writeNat_changedWithin _ _ _ _

/-- **What is written is read back**, up to the width. -/
theorem readNat_writeNat (value : Nat) :
    (m.writeNat a width value).readNat a width = value % 256 ^ width := by
  have loaded := load_store_same m a (leBytes width value)
  rw [leBytes_length] at loaded
  rw [Mem.readNat, Mem.writeNat, loaded, leValue_leBytes]

theorem readNat_writeNat_lt {value : Nat} (fits : value < 256 ^ width) :
    (m.writeNat a width value).readNat a width = value := by
  rw [readNat_writeNat, Nat.mod_eq_of_lt fits]

/-- A signed integer of the width is read back. -/
theorem readInt_writeInt {value : Int} (low : -((256 ^ width : Nat) : Int) ≤ 2 * value)
    (high : 2 * value < ((256 ^ width : Nat) : Int)) :
    (m.writeInt a width value).readInt a width = value := by
  have pos : (0 : Int) < ((256 ^ width : Nat) : Int) := by exact_mod_cast Nat.pow_pos (by norm_num)
  have nonneg := Int.emod_nonneg value (ne_of_gt pos)
  have below := Int.emod_lt_of_pos value pos
  rw [Mem.readInt, Mem.writeInt, readNat_writeNat, Nat.mod_eq_of_lt (by omega),
    Int.toNat_of_nonneg nonneg, Int.emod_bmod]
  exact Int.bmod_eq_of_le (by omega) (by omega)

/-- A signed integer of the width is within its range. -/
theorem readInt_range (m : Mem) (a width : Nat) :
    -((256 ^ width : Nat) : Int) ≤ 2 * m.readInt a width ∧
      2 * m.readInt a width < ((256 ^ width : Nat) : Int) := by
  have pos : (0 : Int) < ((256 ^ width : Nat) : Int) := by exact_mod_cast Nat.pow_pos (by norm_num)
  have low := Int.le_bmod (x := m.readNat a width) (m := 256 ^ width) (by omega)
  have high := Int.bmod_lt (x := m.readNat a width) (m := 256 ^ width) (by omega)
  unfold Mem.readInt
  omega

/-- The bytes of the number that bytes denote are the bytes. -/
theorem leBytes_leValue : ∀ bytes : List UInt8, leBytes bytes.length (leValue bytes) = bytes
  | [] => rfl
  | byte :: bytes => by
    have later := leBytes_leValue bytes
    have small := byte.toNat_lt
    show UInt8.ofNat (byte.toNat + 256 * leValue bytes) ::
      leBytes bytes.length ((byte.toNat + 256 * leValue bytes) / 256) = _
    rw [show (byte.toNat + 256 * leValue bytes) / 256 = leValue bytes by omega, later]
    congr 1
    refine UInt8.toNat_inj.mp ?_
    rw [UInt8.toNat_ofNat']
    omega

theorem leValue_lt : ∀ bytes : List UInt8, leValue bytes < 256 ^ bytes.length
  | [] => Nat.one_pos
  | byte :: bytes => by
    have later := leValue_lt bytes
    have small := byte.toNat_lt
    show byte.toNat + 256 * leValue bytes < 256 ^ (bytes.length + 1)
    rw [pow_succ]
    omega

theorem readNat_lt (m : Mem) (a width : Nat) : m.readNat a width < 256 ^ width := by
  have bound := leValue_lt (m.load a width)
  rwa [load_length] at bound

/-- **A number that was read is written back** byte for byte. -/
theorem load_writeNat_readNat (source : Mem) (b : Nat) :
    (m.writeNat a width (source.readNat b width)).load a width = source.load b width := by
  have bytes := leBytes_leValue (source.load b width)
  rw [load_length] at bytes
  have loaded := load_store_same m a (leBytes width (source.readNat b width))
  rw [leBytes_length] at loaded
  rw [Mem.writeNat, loaded, Mem.readNat, bytes]

theorem load_writeInt_readInt (source : Mem) (b : Nat) :
    (m.writeInt a width (source.readInt b width)).load a width = source.load b width := by
  have small : ((source.readNat b width : Nat) : Int) < (256 ^ width : Nat) := by
    exact_mod_cast readNat_lt source b width
  have number : (source.readInt b width % (256 ^ width : Nat)).toNat = source.readNat b width := by
    rw [Mem.readInt, Int.bmod_emod, Int.emod_eq_of_lt (Int.natCast_nonneg _) small, Int.toNat_natCast]
  rw [Mem.writeInt, number]
  exact load_writeNat_readNat source b

/-- Bytes that are all zero denote zero. -/
theorem leValue_zeros : ∀ bytes : List UInt8, (∀ byte ∈ bytes, byte = 0) → leValue bytes = 0
  | [], _ => rfl
  | byte :: bytes, zeros => by
    have low := zeros byte List.mem_cons_self
    have high := leValue_zeros bytes fun b member => zeros b (List.mem_cons_of_mem byte member)
    show byte.toNat + 256 * leValue bytes = 0
    rw [low, high]
    rfl

/-- A zeroed region reads as zero. -/
theorem readNat_zeroed (zero : ∀ x, a ≤ x → x < a + width → m x = 0) : m.readNat a width = 0 := by
  refine leValue_zeros _ fun byte member => ?_
  obtain ⟨i, inside, rfl⟩ := List.mem_map.mp member
  exact zero _ (Nat.le_add_right _ _) (Nat.add_lt_add_left (List.mem_range.mp inside) a)

theorem readNat_congr (same : Same m m' a width) : m'.readNat a width = m.readNat a width := by
  rw [Mem.readNat, Mem.readNat, load_congr same]

theorem readInt_congr (same : Same m m' a width) : m'.readInt a width = m.readInt a width := by
  rw [Mem.readInt, Mem.readInt, readNat_congr same]

end Integers

/-! ### Allocation procedures -/

/-- **A `realloc`-style allocation procedure.** `none` is a request that fails. A block that is
handed out is not null and takes at most half of the address space (no object is larger than
`PTRDIFF_MAX`), and it starts with the bytes of the block it replaces. -/
structure Realloc where
  realloc : Mem → (ptr prevsize newsize : Nat) → Option (Nat × Mem)
  bounded : ∀ {m ptr prevsize newsize block m'},
    realloc m ptr prevsize newsize = some (block, m') → 0 < block ∧ block + newsize ≤ 2 ^ 63
  keeps : ∀ {m ptr prevsize newsize block m'},
    realloc m ptr prevsize newsize = some (block, m') →
      ∀ i, i < prevsize → i < newsize → m' (block + i) = m (ptr + i)

/-- **The bytes of the old block** are those of the new one, as far as both go. -/
theorem Realloc.load_keeps (A : Realloc) {m m' : Mem} {ptr prevsize newsize block k n : Nat}
    (granted : A.realloc m ptr prevsize newsize = some (block, m')) (old : k + n ≤ prevsize)
    (new : k + n ≤ newsize) : m'.load (block + k) n = m.load (ptr + k) n := by
  refine List.ext_getElem (by simp) fun i low _ => ?_
  rw [load_length] at low
  have kept := A.keeps granted (k + i) (by omega) (by omega)
  rw [load_getElem, load_getElem, Nat.add_assoc, Nat.add_assoc, kept]

/-- The procedure that moves every block to just behind the old one. -/
def Realloc.moving : Realloc where
  realloc m ptr prevsize newsize :=
    if ptr + prevsize + 1 + newsize ≤ 2 ^ 63 then
      some (ptr + prevsize + 1, m.store (ptr + prevsize + 1) (m.load ptr (min prevsize newsize)))
    else none
  bounded granted := by
    obtain ⟨room, same⟩ := Option.ite_none_right_eq_some.mp granted
    cases same
    exact ⟨Nat.succ_pos _, room⟩
  keeps granted i old new := by
    obtain ⟨room, same⟩ := Option.ite_none_right_eq_some.mp granted
    cases same
    rw [store_inside (by rw [load_length]; omega), load_getElem]

/-- The procedure with one block, which stays where it is. -/
def Realloc.single : Realloc where
  realloc m ptr prevsize newsize :=
    if 8 + newsize ≤ 2 ^ 63 then some (8, m.store 8 (m.load ptr (min prevsize newsize))) else none
  bounded granted := by
    obtain ⟨room, same⟩ := Option.ite_none_right_eq_some.mp granted
    cases same
    exact ⟨by norm_num, room⟩
  keeps granted i old new := by
    obtain ⟨room, same⟩ := Option.ite_none_right_eq_some.mp granted
    cases same
    rw [store_inside (by rw [load_length]; omega), load_getElem]

theorem Realloc.single_grants (m : Mem) (ptr prevsize newsize : Nat) (small : newsize ≤ 4096) :
    (Realloc.single.realloc m ptr prevsize newsize).isSome = true :=
  congrArg Option.isSome (if_pos (show 8 + newsize ≤ 2 ^ 63 by omega))

end Vaudou.Memory
