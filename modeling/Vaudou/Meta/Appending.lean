/-
**What the procedures of an intrusive array are for.**

`IntrusiveArrayProps.Appends` is the contract of an `add` and a `len`: from a null pointer on, every add
appends an element of `size` bytes in a block of the array's own, the elements in front keep their bytes
(also where the array is moved), and `len` counts the adds. `room` says up to which length the sizes of
the procedures do not overflow.

* `defaultAppends` — the procedures of `vd_meta_init` are such procedures, as long as their `uint32_t`
  sizes do not wrap.
* `Appends.filled` — a client that fills a new element changes neither the pointer nor another element.
-/

import Vaudou.Meta.IntrusiveArrays

namespace Vaudou

open Vaudou.Memory

/-- Where element `i` is of the array whose pointer is at `location`. -/
def elementAt (mem : Mem) (location size i : Nat) : Nat := mem.readNat location 8 + i * size

/-- **Procedures that append.** `Holds base heap location n`: since the heap was `base`, `n` elements were
appended to the array whose pointer is at `location`. -/
structure IntrusiveArrayProps.Appends (props : IntrusiveArrayProps) (size : Nat) (room : Nat → Prop) where
  Holds : (base heap : BlockHeap) → (location n : Nat) → Prop
  start : ∀ {heap location}, heap.OwnsRange location 8 → heap.mem.readNat location 8 = 0 →
    Holds heap heap location 0
  owned : ∀ {base heap location n}, Holds base heap location n → base.OwnsRange location 8
  grown : ∀ {base heap location n}, Holds base heap location n → base.Grown heap location 8
  len : ∀ {base heap location n}, Holds base heap location n →
    props.len heap.mem (heap.mem.readNat location 8) = n
  slot : ∀ {base heap location n i}, Holds base heap location n → i < n →
    ∀ x, elementAt heap.mem location size i ≤ x → x < elementAt heap.mem location size i + size →
      heap.Owns x ∧ ¬ base.Owns x
  add : ∀ {base heap location n heap'}, Holds base heap location n → room n →
    props.add heap location size = some heap' → Holds base heap' location (n + 1) ∧
      ∀ i, i < n → heap'.mem.load (elementAt heap'.mem location size i) size =
        heap.mem.load (elementAt heap.mem location size i) size
  fill : ∀ {base heap location n i heap'}, Holds base heap location n → i < n →
    heap.Grown heap' (elementAt heap.mem location size i) size → Holds base heap' location n

section Contract

variable {props : IntrusiveArrayProps} {size : Nat} {room : Nat → Prop} {base heap heap' : BlockHeap}
  {location n i : Nat}

/-- An element is apart from everything that was handed out before the array. -/
theorem IntrusiveArrayProps.Appends.apart (appends : props.Appends size room)
    (holds : appends.Holds base heap location n) (inside : i < n) {x : Nat} (owns : base.Owns x) :
    x < elementAt heap.mem location size i ∨ elementAt heap.mem location size i + size ≤ x := by
  by_contra within
  exact (appends.slot holds inside x (by omega) (by omega)).2 owns

/-- The pointer stays where an element is filled. -/
theorem IntrusiveArrayProps.Appends.pointer (appends : props.Appends size room)
    (holds : appends.Holds base heap location n) (inside : i < n)
    (filled : heap.Grown heap' (elementAt heap.mem location size i) size) :
    heap'.mem.readNat location 8 = heap.mem.readNat location 8 := by
  refine readNat_congr fun x low high => ?_
  have owns := appends.owned holds x low high
  exact filled.same x (owns.mono (appends.grown holds).live.subset) (appends.apart holds inside owns)

/-- **An element is filled**: the array holds the same elements at the same places, and the others have
their bytes. -/
theorem IntrusiveArrayProps.Appends.filled (appends : props.Appends size room)
    (holds : appends.Holds base heap location n) (inside : i < n)
    (filled : heap.Grown heap' (elementAt heap.mem location size i) size) :
    appends.Holds base heap' location n ∧
      (∀ j, elementAt heap'.mem location size j = elementAt heap.mem location size j) ∧
      ∀ j, j < n → j ≠ i → heap'.mem.load (elementAt heap'.mem location size j) size =
        heap.mem.load (elementAt heap.mem location size j) size := by
  have pointer := appends.pointer holds inside filled
  have place : ∀ j, elementAt heap'.mem location size j = elementAt heap.mem location size j :=
    fun j => by rw [elementAt, elementAt, pointer]
  refine ⟨appends.fill holds inside filled, place, fun j insideJ other => ?_⟩
  rw [place]
  refine load_congr fun x low high => ?_
  refine filled.same x (appends.slot holds insideJ x low high).1 ?_
  -- two elements of one array
  unfold elementAt at low high ⊢
  rcases Nat.lt_or_gt_of_ne other with before | behind
  · have : (j + 1) * size ≤ i * size := Nat.mul_le_mul_right size before
    rw [Nat.succ_mul] at this
    exact Or.inl (by omega)
  · have : (i + 1) * size ≤ j * size := Nat.mul_le_mul_right size behind
    rw [Nat.succ_mul] at this
    exact Or.inr (by omega)

end Contract

/-! ### The default procedures -/

/-- **An array of the default procedures** in its block at `p`: the header, and room for `cap`
elements. -/
structure GrownArray (base heap : BlockHeap) (location size n p cap : Nat) : Prop where
  split : ∃ newer, heap.live = newer ++ base.live ∧ (p, size * cap + 8) ∈ newer
  pointer : heap.mem.readNat location 8 = p + 8
  new : ∀ x, p ≤ x → x < p + (size * cap + 8) → ¬ base.Owns x
  bounded : p + (size * cap + 8) ≤ 2 ^ 63
  count : heap.mem.readNat p 4 = n
  capacity : heap.mem.readNat (p + 4) 4 = cap
  fits : n ≤ cap
  least : 4 ≤ cap
  double : cap ≤ max 4 (2 * n)
  small : size * cap + 8 < 2 ^ 32 ∧ cap < 2 ^ 31

/-- The array that the default procedures make of a null pointer with `n` adds. -/
def DefaultArray (size : Nat) (base heap : BlockHeap) (location n : Nat) : Prop :=
  base.OwnsRange location 8 ∧ base.Grown heap location 8 ∧
    ((heap.mem.readNat location 8 = 0 ∧ n = 0) ∨ ∃ p cap, GrownArray base heap location size n p cap)

/-- The room in the sizes of the default procedures behind `n` elements. -/
def DefaultRoom (size n : Nat) : Prop := size * max 4 (2 * n) + 8 < 2 ^ 32 ∧ max 4 (2 * n) < 2 ^ 31

section Default

variable {A : BlockAlloc} {base heap heap' : BlockHeap} {location size n p cap ptr prevsize : Nat}

/-- The block of the array belongs to the heap. -/
theorem GrownArray.owns (array : GrownArray base heap location size n p cap) {x : Nat} (low : p ≤ x)
    (high : x < p + (size * cap + 8)) : heap.Owns x := by
  obtain ⟨newer, live, member⟩ := array.split
  exact ⟨_, live ▸ List.mem_append_left _ member, low, high⟩

/-- An element lies in the block. -/
theorem GrownArray.element (array : GrownArray base heap location size n p cap) {i : Nat}
    (inside : i < cap) : elementAt heap.mem location size i = p + 8 + i * size ∧
      p + 8 + i * size + size ≤ p + (size * cap + 8) := by
  have whole : (i + 1) * size ≤ cap * size := Nat.mul_le_mul_right size inside
  rw [Nat.succ_mul, Nat.mul_comm cap] at whole
  exact ⟨by rw [elementAt, array.pointer], by omega⟩

/-- The header is in front of the elements, and the pointer is not in the block. -/
theorem GrownArray.location_apart (array : GrownArray base heap location size n p cap)
    (owned : base.OwnsRange location 8) : location + 8 ≤ p ∨ p + (size * cap + 8) ≤ location := by
  by_contra meet
  by_cases below : p ≤ location
  · exact array.new location below (by omega) (owned location le_rfl (by omega))
  · exact array.new p le_rfl (by omega) (owned p (by omega) (by omega))

/-- The header of an array. -/
theorem GrownArray.header (array : GrownArray base heap location size n p cap) :
    metaArrayLen heap.mem (p + 8) = n ∧ metaArrayCap heap.mem (p + 8) = cap := by
  constructor
  · rw [metaArrayLen, if_neg (Nat.succ_ne_zero _), Nat.add_sub_cancel]
    exact array.count
  · rw [metaArrayCap, if_neg (Nat.succ_ne_zero _), show p + 8 - 4 = p + 4 by omega]
    exact array.capacity

/-- **A block that was just reallocated** becomes the array, once it has its capacity and the pointer is
at it. -/
theorem GrownArray.of_realloc {newer : List (Nat × Nat)} {granted : BlockHeap} {mem : Mem}
    (owned : base.OwnsRange location 8) (grown : base.Grown heap location 8)
    (split : heap.live = newer ++ base.live) (own : ptr = 0 ∨ ∃ block ∈ newer, block.1 = ptr)
    (called : A.realloc heap ptr prevsize (size * cap + 8) = some (granted, p))
    (header : ChangedWithin granted.mem mem p 8) (count : mem.readNat p 4 = n)
    (capacity : mem.readNat (p + 4) 4 = cap) (fits : n ≤ cap) (least : 4 ≤ cap)
    (double : cap ≤ max 4 (2 * n)) (small : size * cap + 8 < 2 ^ 32 ∧ cap < 2 ^ 31) :
    let next : BlockHeap := { granted with mem := mem.writeNat location 8 (p + 8) }
    base.Grown next location 8 ∧ GrownArray base next location size n p cap ∧
      ∀ i, 8 ≤ i → i < prevsize → i < size * cap + 8 → next.mem (p + i) = heap.mem (ptr + i) := by
  intro next
  obtain ⟨frame, ⟨newer', live⟩, new, nonnull, bounded, copied⟩ :=
    realloc_grown grown split own (Nat.succ_ne_zero _) called
  have apart : location + 8 ≤ p ∨ p + (size * cap + 8) ≤ location := by
    by_contra meet
    by_cases below : p ≤ location
    · exact new location below (by omega) (owned location le_rfl (by omega))
    · exact new p le_rfl (by omega) (owned p (by omega) (by omega))
  have write := writeNat_changedWithin mem location 8 (p + 8)
  have inBlock : ∀ a k, p ≤ a → a + k ≤ p + (size * cap + 8) → Same mem next.mem a k :=
    fun a k low high => write.same (by omega)
  refine ⟨⟨frame.live, fun x owns outside => ?_⟩, ⟨⟨(p, size * cap + 8) :: newer', live,
    List.mem_cons_self⟩, ?_, new, bounded, ?_, ?_, fits, least, double, small⟩,
    fun i low old inside => ?_⟩
  · have outsideHeader : x < p ∨ p + 8 ≤ x := by
      by_contra within
      exact new x (by omega) (by omega) owns
    exact (write x outside).trans ((header x outsideHeader).trans (frame.same x owns outside))
  · exact readNat_writeNat_lt (by omega)
  · rw [readNat_congr (inBlock p 4 le_rfl (by omega))]
    exact count
  · rw [readNat_congr (inBlock (p + 4) 4 (by omega) (by omega))]
    exact capacity
  · have same := inBlock p (size * cap + 8) le_rfl le_rfl (p + i) (by omega) (by omega)
    rw [same, header (p + i) (by omega)]
    exact copied i old inside

/-- **The last step of an add**: one element more, where there is room. -/
theorem GrownArray.counted (array : GrownArray base heap location size n p cap)
    (owned : base.OwnsRange location 8) (grown : base.Grown heap location 8) (room : n < cap) :
    let next : BlockHeap := { heap with
      mem := heap.mem.writeNat p 4 ((heap.mem.readNat p 4 + 1) % 2 ^ 32) }
    base.Grown next location 8 ∧ GrownArray base next location size (n + 1) p cap ∧
      ∀ x, p + 8 ≤ x → next.mem x = heap.mem x := by
  intro next
  have write := writeNat_changedWithin heap.mem p 4 ((heap.mem.readNat p 4 + 1) % 2 ^ 32)
  have apart := array.location_apart owned
  have bound := array.small
  refine ⟨⟨grown.live, fun x owns outside => ?_⟩, ⟨array.split, ?_, array.new, array.bounded, ?_, ?_,
    room, array.least, array.double.trans (by omega), array.small⟩, fun x behind => write x (by omega)⟩
  · have outsideCount : x < p ∨ p + 4 ≤ x := by
      by_contra within
      exact array.new x (by omega) (by omega) owns
    exact (write x outsideCount).trans (grown.same x owns outside)
  · rw [readNat_congr (write.same (by omega))]
    exact array.pointer
  · have small : (n + 1) % 2 ^ 32 = n + 1 := Nat.mod_eq_of_lt (by omega)
    show (heap.mem.writeNat p 4 ((heap.mem.readNat p 4 + 1) % 2 ^ 32)).readNat p 4 = n + 1
    rw [array.count, small]
    exact readNat_writeNat_lt (by omega)
  · rw [readNat_congr (write.same (by omega))]
    exact array.capacity

/-- `vd_meta__array_grow` at a null pointer: a new block for four elements. -/
theorem metaArrayGrow_null {tsize b : Nat}
    (grown : metaArrayGrow A heap 0 tsize 1 0 = some (heap', b)) :
    ∃ granted q, A.realloc heap 0 0 (tsize * 4 % 2 ^ 32 + 8) = some (granted, q) ∧
      heap' = { granted with mem := (granted.mem.writeNat q 4 0).writeNat (q + 4) 4 4 } ∧ b = q + 8 := by
  obtain ⟨⟨granted, q⟩, called, same⟩ := Option.map_eq_some_iff.mp grown
  obtain ⟨rfl, rfl⟩ := Prod.mk.inj same
  exact ⟨granted, q, called, rfl, rfl⟩

/-- **An array that is full** is moved to a block of twice the capacity. -/
theorem metaArrayGrow_doubles {tsize : Nat} (length : metaArrayLen heap.mem (p + 8) = n)
    (capacity : metaArrayCap heap.mem (p + 8) = n) (least : 4 ≤ n) (few : 2 * n < 2 ^ 32) :
    metaArrayGrow A heap (p + 8) tsize 1 0 =
      (A.realloc heap p (tsize * n % 2 ^ 32 + 8) (tsize * (2 * n) % 2 ^ 32 + 8)).map fun granted =>
        ({ granted.1 with mem := granted.1.mem.writeNat (granted.2 + 4) 4 (2 * n) }, granted.2 + 8) := by
  have needed : (n + 1) % 2 ^ 32 = n + 1 := Nat.mod_eq_of_lt (by omega)
  have doubled : metaGrowCap n (n + 1) = 2 * n := by
    unfold metaGrowCap
    rw [Nat.mod_eq_of_lt few]
    exact if_pos (by omega)
  have header : p + 8 ≠ 0 := Nat.succ_ne_zero _
  unfold metaArrayGrow
  simp only [length, capacity, needed, if_pos (Nat.succ_pos n), if_neg (Nat.not_succ_le_self n),
    doubled, if_neg header, if_neg (show ¬ n = 0 by omega), Nat.add_sub_cancel]
  rfl

/-- `vd_meta__array_grow` at an array that is full: where it is then. -/
theorem metaArrayGrow_full {tsize b : Nat} (length : metaArrayLen heap.mem (p + 8) = n)
    (capacity : metaArrayCap heap.mem (p + 8) = n) (least : 4 ≤ n) (few : 2 * n < 2 ^ 32)
    (grown : metaArrayGrow A heap (p + 8) tsize 1 0 = some (heap', b)) :
    ∃ granted q, A.realloc heap p (tsize * n % 2 ^ 32 + 8) (tsize * (2 * n) % 2 ^ 32 + 8) =
        some (granted, q) ∧
      heap' = { granted with mem := granted.mem.writeNat (q + 4) 4 (2 * n) } ∧ b = q + 8 := by
  rw [metaArrayGrow_doubles length capacity least few] at grown
  obtain ⟨⟨granted, q⟩, called, same⟩ := Option.map_eq_some_iff.mp grown
  obtain ⟨rfl, rfl⟩ := Prod.mk.inj same
  exact ⟨granted, q, called, rfl, rfl⟩

/-- The elements of an array that was moved have their bytes. -/
theorem GrownArray.moved {next : BlockHeap} {q cap' : Nat}
    (array : GrownArray base heap location size n p cap)
    (array' : GrownArray base next location size n q cap')
    (same : ∀ i, 8 ≤ i → i < size * cap + 8 → i < size * cap' + 8 → next.mem (q + i) = heap.mem (p + i))
    {i : Nat} (inside : i < n) : next.mem.load (elementAt next.mem location size i) size =
      heap.mem.load (elementAt heap.mem location size i) size := by
  obtain ⟨place, fits⟩ := array.element (lt_of_lt_of_le inside array.fits)
  obtain ⟨place', fits'⟩ := array'.element (lt_of_lt_of_le inside array'.fits)
  rw [place, place']
  unfold Mem.load
  refine List.map_congr_left fun k member => ?_
  have inElement := List.mem_range.mp member
  have moved := same (8 + i * size + k) (by omega) (by omega) (by omega)
  rw [show q + 8 + i * size + k = q + (8 + i * size + k) by omega,
    show p + 8 + i * size + k = p + (8 + i * size + k) by omega]
  exact moved

/-- **The default procedure makes room**: it leaves an array that has room for one element more, with
the elements of the old one. -/
theorem DefaultArray.room (array : DefaultArray size base heap location n) (room : DefaultRoom size n)
    {next : BlockHeap}
    (grown : (if heap.mem.readNat location 8 = 0 ∨ metaArrayCap heap.mem (heap.mem.readNat location 8) <
        (metaArrayLen heap.mem (heap.mem.readNat location 8) + 1) % 2 ^ 32 then
        (metaArrayGrow A heap (heap.mem.readNat location 8) (size % 2 ^ 32) 1 0).map fun grown =>
          { grown.1 with mem := grown.1.mem.writeNat location 8 grown.2 }
      else some heap) = some next) :
    base.Grown next location 8 ∧ ∃ p cap, GrownArray base next location size n p cap ∧ n < cap ∧
      ∀ i, i < n → next.mem.load (elementAt next.mem location size i) size =
        heap.mem.load (elementAt heap.mem location size i) size := by
  obtain ⟨owned, frame, ⟨null, rfl⟩ | ⟨p, cap, array⟩⟩ := array
  · -- the first element: a new block for four
    have four : size * 4 ≤ size * max 4 (2 * 0) := Nat.mul_le_mul_left size (le_max_left _ _)
    have bytes := room.1
    have small : size % 2 ^ 32 * 4 % 2 ^ 32 + 8 = size * 4 + 8 := by
      have element : size % 2 ^ 32 = size := Nat.mod_eq_of_lt (by omega)
      rw [element, Nat.mod_eq_of_lt (by omega)]
    rw [if_pos (Or.inl null), null] at grown
    obtain ⟨⟨granted, b⟩, grow, rfl⟩ := Option.map_eq_some_iff.mp grown
    obtain ⟨granted', q, called, rfl, rfl⟩ := metaArrayGrow_null grow
    rw [small] at called
    obtain ⟨newer, live⟩ := frame.live
    have first := writeNat_changedWithin granted'.mem q 4 0
    have second := writeNat_changedWithin (granted'.mem.writeNat q 4 0) (q + 4) 4 4
    obtain ⟨frame', array', -⟩ := GrownArray.of_realloc (n := 0) owned frame live.symm
      (Or.inl rfl) called ((first.widen le_rfl (by omega)).trans (second.widen (by omega) (by omega)))
      (by rw [readNat_congr (second.same (Or.inl le_rfl))]; exact readNat_writeNat_lt (by norm_num))
      (readNat_writeNat_lt (by norm_num)) (Nat.zero_le _) le_rfl (le_max_left _ _)
      ⟨by omega, by norm_num⟩
    exact ⟨frame', q, 4, array', by norm_num, fun i inside => absurd inside (Nat.not_lt_zero i)⟩
  · obtain ⟨length, capacity⟩ := array.header
    have bound := array.small
    have fits := array.fits
    rw [array.pointer, length, capacity, Nat.mod_eq_of_lt (by omega)] at grown
    by_cases full : cap < n + 1
    · -- no room is left: the array moves to a block of twice the capacity
      obtain rfl : n = cap := by omega
      have least := array.least
      have twice : max 4 (2 * n) = 2 * n := max_eq_right (by omega)
      obtain ⟨sizes, counts⟩ := room
      rw [twice] at sizes counts
      have atMost : size ≤ size * (2 * n) := Nat.le_mul_of_pos_right size (by omega)
      have half : size * n ≤ size * (2 * n) := Nat.mul_le_mul_left size (by omega)
      have element : size % 2 ^ 32 = size := Nat.mod_eq_of_lt (by omega)
      rw [if_pos (Or.inr full)] at grown
      obtain ⟨⟨granted, b⟩, grow, rfl⟩ := Option.map_eq_some_iff.mp grown
      obtain ⟨granted', q, called, rfl, rfl⟩ := metaArrayGrow_full length capacity least (by omega) grow
      rw [element, Nat.mod_eq_of_lt (by omega), Nat.mod_eq_of_lt (by omega)] at called
      obtain ⟨newer, live, member⟩ := array.split
      obtain ⟨-, -, -, -, bounded, copied⟩ := realloc_grown frame live (Or.inr ⟨_, member, rfl⟩)
        (Nat.succ_ne_zero _) called
      have write := writeNat_changedWithin granted'.mem (q + 4) 4 (2 * n)
      have count : granted'.mem.readNat q 4 = n := by
        rw [← array.count]
        unfold Mem.readNat Mem.load
        refine congrArg leValue (List.map_congr_left fun i member => ?_)
        have := List.mem_range.mp member
        exact copied i (by omega) (by omega)
      obtain ⟨frame', array', moved⟩ := GrownArray.of_realloc (n := n) owned frame live
        (Or.inr ⟨_, member, rfl⟩) called (write.widen (by omega) (by omega))
        (by rw [readNat_congr (write.same (by omega))]; exact count)
        (readNat_writeNat_lt (by omega))
        (by omega) (by omega) (by omega) ⟨sizes, counts⟩
      exact ⟨frame', q, 2 * n, array', by omega, fun i inside => array.moved array' moved inside⟩
    · rw [if_neg (not_or.mpr ⟨Nat.succ_ne_zero _, full⟩)] at grown
      cases grown
      exact ⟨frame, p, cap, array, by omega, fun i _ => rfl⟩

/-- **An add of the default procedures.** -/
theorem DefaultArray.add (array : DefaultArray size base heap location n) (room : DefaultRoom size n)
    (added : intrusiveArrayAdd A heap location size = some heap') :
    DefaultArray size base heap' location (n + 1) ∧
      ∀ i, i < n → heap'.mem.load (elementAt heap'.mem location size i) size =
        heap.mem.load (elementAt heap.mem location size i) size := by
  have owned := array.1
  unfold intrusiveArrayAdd at added
  dsimp only at added
  obtain ⟨next, grown, rfl⟩ := Option.map_eq_some_iff.mp added
  obtain ⟨frame, p, cap, array', free, same⟩ := array.room room grown
  rw [array'.pointer, Nat.add_sub_cancel]
  obtain ⟨frame', array'', rest⟩ := array'.counted owned frame free
  refine ⟨⟨owned, frame', Or.inr ⟨p, cap, array''⟩⟩, fun i inside => ?_⟩
  rw [← same i inside]
  have low := (array'.element (lt_of_lt_of_le inside array'.fits)).1
  have place : elementAt _ location size i = elementAt next.mem location size i :=
    (array''.element (lt_of_lt_of_le (Nat.lt_succ_of_lt inside) array''.fits)).1.trans low.symm
  rw [place]
  exact load_congr fun x from_ _ => rest x (by omega)

/-- A change within an element leaves the header and the pointer. -/
theorem DefaultArray.fill {i : Nat} (array : DefaultArray size base heap location n) (inside : i < n)
    (filled : heap.Grown heap' (elementAt heap.mem location size i) size) :
    DefaultArray size base heap' location n := by
  obtain ⟨owned, frame, ⟨-, rfl⟩ | ⟨p, cap, array⟩⟩ := array
  · exact absurd inside (Nat.not_lt_zero i)
  obtain ⟨place, fits⟩ := array.element (lt_of_lt_of_le inside array.fits)
  rw [place] at filled
  have apart := array.location_apart owned
  have blockSame : Same heap.mem heap'.mem p 8 := fun x low high =>
    filled.same x (array.owns low (by omega)) (by omega)
  have pointerSame : Same heap.mem heap'.mem location 8 := fun x low high =>
    filled.same x ((owned x low high).mono frame.live.subset) (by omega)
  have frame' : base.Grown heap' location 8 := frame.append filled fun x low high =>
    array.new x (by omega) (by omega)
  refine ⟨owned, frame', Or.inr ⟨p, cap, ?_, ?_, array.new, array.bounded, ?_, ?_, array.fits, array.least,
    array.double, array.small⟩⟩
  · obtain ⟨newer, live, member⟩ := array.split
    obtain ⟨later, live'⟩ := filled.live
    exact ⟨later ++ newer, by rw [← live', live, List.append_assoc], List.mem_append_right later member⟩
  · rw [readNat_congr pointerSame]
    exact array.pointer
  · rw [readNat_congr (blockSame.part le_rfl (by omega))]
    exact array.count
  · rw [readNat_congr (blockSame.part (by omega) (by omega))]
    exact array.capacity

/-- **The length stays** while the pointer and the blocks of the array are left alone. -/
theorem DefaultArray.kept (array : DefaultArray size base heap location n)
    (same : ∀ x, heap.Owns x → ¬ base.Owns x ∨ (location ≤ x ∧ x < location + 8) → heap'.mem x = heap.mem x) :
    metaArrayLen heap'.mem (heap'.mem.readNat location 8) = n := by
  obtain ⟨owned, frame, array⟩ := array
  have pointer : heap'.mem.readNat location 8 = heap.mem.readNat location 8 := readNat_congr fun x low high =>
    same x ((owned x low high).mono frame.live.subset) (Or.inr ⟨low, high⟩)
  rcases array with ⟨null, rfl⟩ | ⟨p, cap, array⟩
  · rw [pointer, null]
    rfl
  · rw [pointer, array.pointer, ← array.header.1, metaArrayLen, metaArrayLen, if_neg (Nat.succ_ne_zero _),
      if_neg (Nat.succ_ne_zero _), Nat.add_sub_cancel]
    exact readNat_congr fun x low high =>
      same x (array.owns low (by omega)) (Or.inl (array.new x low (by omega)))

variable (A size) in
/-- **The procedures of `vd_meta_init` append**, as long as their sizes do not wrap. -/
def defaultAppends : (IntrusiveArrayProps.default A).Appends size (DefaultRoom size) where
  Holds := DefaultArray size
  start owned null := ⟨owned, .refl _ _ _, Or.inl ⟨null, rfl⟩⟩
  owned array := array.1
  grown array := array.2.1
  len := by
    rintro base heap location n ⟨-, -, ⟨null, rfl⟩ | ⟨p, cap, array⟩⟩
    · rw [null]
      rfl
    · rw [array.pointer]
      exact array.header.1
  slot := by
    rintro base heap location n i ⟨-, -, ⟨-, rfl⟩ | ⟨p, cap, array⟩⟩ inside x low high
    · exact absurd inside (Nat.not_lt_zero i)
    · obtain ⟨place, fits⟩ := array.element (lt_of_lt_of_le inside array.fits)
      rw [place] at low high
      exact ⟨array.owns (by omega) (by omega), array.new x (by omega) (by omega)⟩
  add := by
    intro base heap location n heap' array room added
    rw [default_add] at added
    exact DefaultArray.add array room added
  fill array inside filled := array.fill inside filled

end Default

end Vaudou
