/-
**What a procedure writes when it moves a block.**

`Stores` are the writes of a procedure into blocks, in order; its own headers and links are not among
them. `Resized` is the contract of a procedure that moves the contents of a block into a new one: the
new block starts with the bytes of the old one, and nothing outside of the new block is written.

* `resized_iff` — a procedure that copies all of the old block keeps it if and only if the old block is
  not longer than the new one.
-/

import Vaudou.Foundation.Memory

namespace Vaudou.Memory

/-- Addresses and the bytes that are written there, in order. -/
abbrev Stores := List (Nat × List UInt8)

/-- The memory after the writes. -/
def Mem.stores (m : Mem) (writes : Stores) : Mem := writes.foldl (fun m w => m.store w.1 w.2) m

/-- The writes are to the `n` bytes from `a` on. -/
def Stores.Within (writes : Stores) (a n : Nat) : Prop :=
  ∀ w ∈ writes, ∀ x, w.1 ≤ x → x < w.1 + w.2.length → a ≤ x ∧ x < a + n

/-- **The contract of a resize**, from the memory before it to the memory after it. -/
structure Resized (before after : Mem) (writes : Stores) (ptr prevsize block newsize : Nat) : Prop where
  kept : after.load block (min prevsize newsize) = before.load ptr (min prevsize newsize)
  confined : writes.Within block newsize

variable {before m : Mem} {fill : Stores} {bytes : List UInt8} {ptr prevsize block newsize : Nat}

theorem stores_append (m : Mem) (first second : Stores) :
    m.stores (first ++ second) = (m.stores first).stores second := List.foldl_append

/-- **Everything is copied**: that is the contract exactly if the block does not shrink. -/
theorem resized_iff (fills : fill.Within block newsize) (old : bytes = before.load ptr prevsize) :
    Resized before (m.stores (fill ++ [(block, bytes)])) (fill ++ [(block, bytes)]) ptr prevsize block
      newsize ↔ prevsize ≤ newsize := by
  have length : bytes.length = prevsize := by rw [old, load_length]
  constructor
  · rintro ⟨-, confined⟩
    by_contra shrinks
    have beyond := confined (block, bytes) (List.mem_append_right _ (List.mem_singleton_self _))
      (block + newsize) (Nat.le_add_right _ _) (by show _ < block + bytes.length; omega)
    exact absurd beyond.2 (lt_irrefl _)
  · intro grows
    refine ⟨?_, fun w member x low high => ?_⟩
    · have copied := load_store_same (m.stores fill) block bytes
      rw [Nat.min_eq_left grows, stores_append]
      rw [length] at copied
      exact copied.trans old
    · rcases List.mem_append.mp member with filling | copying
      · exact fills w filling x low high
      · rw [List.mem_singleton.mp copying] at low high
        exact ⟨low, lt_of_lt_of_le high (by show block + bytes.length ≤ _; omega)⟩

end Vaudou.Memory
