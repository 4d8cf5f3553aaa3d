/-
**Two heaps with the same blocks.**

Two runs of a program whose allocators grant the same addresses, and leave different bytes in what they
grant, work on heaps with the same blocks. `BlockAlloc.SameGrants` are such allocators, and
`BlockAlloc.filled` is an allocator that fills what it grants with one byte. `BlockHeap.Keeps` is the
frame for a step that may also give blocks back.
-/

import Vaudou.Foundation.Reallocation

namespace Vaudou.Memory

/-- The address is in the block. -/
def InBlock (block : Nat × Nat) (x : Nat) : Prop := block.1 ≤ x ∧ x < block.1 + block.2

/-- Blocks that share a byte are one. -/
def BlockHeap.Separate (heap : BlockHeap) : Prop :=
  ∀ first ∈ heap.live, ∀ second ∈ heap.live, ∀ x, InBlock first x → InBlock second x → first = second

/-- **What a step keeps**: the blocks that it does not drop, and their bytes but for those that it changes. -/
def BlockHeap.Keeps (dropped changed : Nat → Prop) (heap heap' : BlockHeap) : Prop :=
  ∀ block ∈ heap.live, ¬ dropped block.1 →
    block ∈ heap'.live ∧ ∀ x, InBlock block x → ¬ changed x → heap'.mem x = heap.mem x

/-- Nowhere. -/
def Nowhere : Nat → Prop := fun _ => False

/-- The `n` bytes from `a` on. -/
def Within (a n : Nat) : Nat → Prop := fun x => a ≤ x ∧ x < a + n

/-- **Allocators that grant the same blocks**, whatever the bytes are. -/
def BlockAlloc.SameGrants (A B : BlockAlloc) : Prop :=
  ∀ heap twin size, twin.live = heap.live →
    (B.alloc twin size).map Prod.snd = (A.alloc heap size).map Prod.snd

/-- The bytes of what they grant are related. -/
def BlockAlloc.Related (R : UInt8 → UInt8 → Prop) (A B : BlockAlloc) : Prop :=
  ∀ {heap twin size heap' twin' p}, A.alloc heap size = some (heap', p) → B.alloc twin size = some (twin', p) →
    ∀ x, Within p size x → R (heap'.mem x) (twin'.mem x)

/-- Bytes that denote the same number are the same. -/
theorem same_of_readNat {m m' : Mem} {a n : Nat} (same : m'.readNat a n = m.readNat a n) : Same m m' a n := by
  have loads : m'.load a n = m.load a n := by
    have bytes := leBytes_leValue (m'.load a n)
    have bytes' := leBytes_leValue (m.load a n)
    rw [load_length] at bytes bytes'
    rw [← bytes, ← bytes']
    exact congrArg (leBytes n) same
  intro x low high
  obtain ⟨i, rfl⟩ : ∃ i, x = a + i := ⟨x - a, by omega⟩
  have inside : i < n := by omega
  rw [← load_getElem (m := m') (n := n) (by rw [load_length]; exact inside),
    ← load_getElem (m := m) (n := n) (by rw [load_length]; exact inside)]
  simp only [loads]

section Blocks

variable {A B C : BlockAlloc} {R : UInt8 → UInt8 → Prop} {heap heap' heap'' twin : BlockHeap} {p q size : Nat}
  {dropped changed changed' : Nat → Prop}

/-! ### Separate blocks -/

theorem BlockHeap.Separate.alloc (separate : heap.Separate) (granted : A.alloc heap size = some (heap', p)) :
    heap'.Separate := by
  intro first member second member' x inFirst inSecond
  rw [A.live granted] at member member'
  rcases List.mem_cons.mp member with rfl | member <;> rcases List.mem_cons.mp member' with rfl | member'
  · rfl
  · exact absurd ⟨second, member', inSecond⟩ (A.apart granted x inFirst.1 inFirst.2)
  · exact absurd ⟨first, member, inFirst⟩ (A.apart granted x inSecond.1 inSecond.2)
  · exact separate first member second member' x inFirst inSecond

theorem release_live_subset (heap : BlockHeap) (p : Nat) : (heap.release p).live ⊆ heap.live := by
  unfold BlockHeap.release
  split
  · exact List.Subset.refl _
  · exact List.eraseP_subset

theorem release_mem (heap : BlockHeap) (p : Nat) : (heap.release p).mem = heap.mem := by
  unfold BlockHeap.release
  split <;> rfl

theorem release_live_eq (live : twin.live = heap.live) (p : Nat) :
    (twin.release p).live = (heap.release p).live := by
  unfold BlockHeap.release
  split
  · exact live
  · exact congrArg (List.eraseP fun block => block.1 == p) live

/-- What the blocks own. -/
theorem BlockHeap.OwnsRange.same_live {a n : Nat} (owns : heap.OwnsRange a n) (live : twin.live = heap.live) :
    twin.OwnsRange a n := fun x low high => by
  obtain ⟨block, member, inside⟩ := owns x low high
  exact ⟨block, live ▸ member, inside⟩

theorem BlockHeap.Separate.release (separate : heap.Separate) (p : Nat) : (heap.release p).Separate :=
  fun first member second member' =>
    separate first (release_live_subset heap p member) second (release_live_subset heap p member')

/-- A block that is granted has no address of another one with bytes. -/
theorem BlockAlloc.new_start (granted : A.alloc heap size = some (heap', p)) {block : Nat × Nat}
    (member : block ∈ heap.live) (some_ : 0 < block.2) : size = 0 ∨ block.1 ≠ p := by
  by_contra both
  obtain ⟨nonempty, same⟩ := not_or.mp both
  have start := not_not.mp same
  exact A.apart granted p le_rfl (by omega) ⟨block, member, by omega, by omega⟩

/-! ### Frames -/

theorem BlockHeap.Keeps.mono (keeps : heap.Keeps dropped changed heap') (wider : ∀ x, changed x → changed' x) :
    heap.Keeps dropped changed' heap' :=
  fun block member kept =>
    ⟨(keeps block member kept).1, fun x inside same => (keeps block member kept).2 x inside (mt (wider x) same)⟩

/-- A step that drops nothing. -/
theorem BlockHeap.Keeps.drop (keeps : heap.Keeps Nowhere changed heap') : heap.Keeps dropped changed heap' :=
  fun block member _ => keeps block member id

theorem BlockHeap.Keeps.refl (heap : BlockHeap) : heap.Keeps dropped changed heap :=
  fun _ member _ => ⟨member, fun _ _ _ => rfl⟩

theorem BlockHeap.Keeps.trans (first : heap.Keeps dropped changed heap')
    (second : heap'.Keeps dropped changed heap'') : heap.Keeps dropped changed heap'' := by
  intro block member kept
  obtain ⟨member', same⟩ := first block member kept
  obtain ⟨member'', same'⟩ := second block member' kept
  exact ⟨member'', fun x inside outside => (same' x inside outside).trans (same x inside outside)⟩

/-- A grant keeps everything. -/
theorem BlockHeap.Keeps.alloc (granted : A.alloc heap size = some (heap', p)) :
    heap.Keeps dropped changed heap' := by
  intro block member _
  refine ⟨?_, fun x inside _ => A.keeps granted x ⟨block, member, inside⟩⟩
  rw [A.live granted]
  exact List.mem_cons_of_mem _ member

/-- Other blocks are still there when one is given back. -/
theorem mem_release {block : Nat × Nat} (member : block ∈ heap.live) (other : block.1 ≠ p) :
    block ∈ (heap.release p).live := by
  unfold BlockHeap.release
  split
  · exact member
  · exact (List.mem_eraseP_of_neg (by simpa using other)).mpr member

/-- A block that is given back is dropped, and nothing else. -/
theorem BlockHeap.Keeps.release (heap : BlockHeap) (p : Nat) :
    heap.Keeps (fun x => x = p) changed (heap.release p) :=
  fun _ member other => ⟨mem_release member other, fun x _ _ => by rw [release_mem]⟩

/-- A write changes the bytes that it changes. -/
theorem BlockHeap.Keeps.write {mem : Mem} {a n : Nat} (change : ChangedWithin heap.mem mem a n) :
    heap.Keeps dropped (Within a n) { heap with mem := mem } :=
  fun _ member _ => ⟨member, fun x _ outside => change x (by unfold Within at outside; omega)⟩

/-! ### The same grants -/

theorem BlockAlloc.SameGrants.granted (same : A.SameGrants B) (live : twin.live = heap.live)
    (granted : A.alloc heap size = some (heap', p)) :
    ∃ twin', B.alloc twin size = some (twin', p) ∧ twin'.live = heap'.live := by
  have addresses := same heap twin size live
  rw [granted] at addresses
  obtain ⟨⟨twin', q⟩, alloc, rfl⟩ := Option.map_eq_some_iff.mp addresses
  exact ⟨twin', alloc, by rw [A.live granted, B.live alloc, live]⟩

/-- **An allocator that fills what it grants.** -/
def BlockAlloc.filled (A : BlockAlloc) (byte : UInt8) : BlockAlloc where
  alloc heap size := (A.alloc heap size).map fun granted =>
    ({ granted.1 with mem := granted.1.mem.store granted.2 (List.replicate size byte) }, granted.2)
  nonnull granted := by
    obtain ⟨⟨next, q⟩, alloc, same⟩ := Option.map_eq_some_iff.mp granted
    obtain ⟨-, rfl⟩ := Prod.mk.inj same
    exact A.nonnull alloc
  bounded granted := by
    obtain ⟨⟨next, q⟩, alloc, same⟩ := Option.map_eq_some_iff.mp granted
    obtain ⟨-, rfl⟩ := Prod.mk.inj same
    exact A.bounded alloc
  live granted := by
    obtain ⟨⟨next, q⟩, alloc, same⟩ := Option.map_eq_some_iff.mp granted
    obtain ⟨rfl, rfl⟩ := Prod.mk.inj same
    have live : next.live = (q, _) :: _ := A.live alloc
    exact live
  apart granted := by
    obtain ⟨⟨next, q⟩, alloc, same⟩ := Option.map_eq_some_iff.mp granted
    obtain ⟨rfl, rfl⟩ := Prod.mk.inj same
    exact A.apart alloc
  keeps granted x owns := by
    obtain ⟨⟨next, q⟩, alloc, same⟩ := Option.map_eq_some_iff.mp granted
    obtain ⟨rfl, rfl⟩ := Prod.mk.inj same
    exact (BlockAlloc.store_outside alloc (List.length_replicate).le owns).trans (A.keeps alloc x owns)

/-- The bytes of a block of the filling allocator. -/
theorem filled_bytes {byte : UInt8} (granted : (A.filled byte).alloc heap size = some (heap', p)) {x : Nat}
    (inside : Within p size x) : heap'.mem x = byte := by
  obtain ⟨⟨next, q⟩, alloc, same⟩ := Option.map_eq_some_iff.mp granted
  obtain ⟨rfl, rfl⟩ := Prod.mk.inj same
  obtain ⟨i, rfl⟩ : ∃ i, x = q + i := ⟨x - q, by have := inside.1; omega⟩
  have within : i < (List.replicate size byte).length := by
    rw [List.length_replicate]
    have := inside.2
    omega
  show next.mem.store q _ (q + i) = byte
  rw [store_inside within, List.getElem_replicate]

theorem filled_addresses (A : BlockAlloc) (byte : UInt8) (heap : BlockHeap) (size : Nat) :
    ((A.filled byte).alloc heap size).map Prod.snd = (A.alloc heap size).map Prod.snd := by
  show ((A.alloc heap size).map _).map Prod.snd = _
  rw [Option.map_map]
  rfl

/-- It grants what the allocator grants. -/
theorem BlockAlloc.SameGrants.fill_left (same : A.SameGrants B) (byte : UInt8) :
    (A.filled byte).SameGrants B := fun heap twin size live => by
  rw [filled_addresses]
  exact same heap twin size live

theorem BlockAlloc.SameGrants.fill_right (same : A.SameGrants B) (byte : UInt8) :
    A.SameGrants (B.filled byte) := fun heap twin size live => by
  rw [filled_addresses]
  exact same heap twin size live

end Blocks

end Vaudou.Memory
