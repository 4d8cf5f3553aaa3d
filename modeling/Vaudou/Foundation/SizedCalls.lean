/-
**The calls of a program to its allocators.**

A call passes a pointer and the size of its block, and gets a pointer for a new size. `Consistent` says
of a whole log that what is passed with a pointer is what the pointer was last obtained with: the size,
and the allocator. `Holding` is what a program knows that holds blocks: every block was last obtained
with its size, no two holders have the same one, and the allocator has all of them outstanding.

* `consistent_snoc` — one call more.
* `Holding.replace` — a holder gets another block; whoever else has one keeps it.
-/

import Vaudou.Foundation.BlockHeap

namespace Vaudou.Memory

/-- `proc_alloc(ptr, prevsize, newsize)` of an allocator, and the pointer it returned. -/
structure SizedCall where
  allocator : Nat
  ptr : Nat
  prevsize : Nat
  newsize : Nat
  result : Nat
deriving DecidableEq, Repr

/-- The allocator and the size that a pointer was last obtained with. -/
def lastObtained (calls : List SizedCall) (p : Nat) : Option (Nat × Nat) :=
  (calls.filter fun c => c.result == p).getLast?.map fun c => (c.allocator, c.newsize)

/-- The call passes a null pointer, or what the pointer was last obtained with. -/
def SizedCall.Matches (c : SizedCall) (calls : List SizedCall) : Prop :=
  c.ptr ≠ 0 → lastObtained calls c.ptr = some (c.allocator, c.prevsize)

/-- **Sized deallocation is consistent**: every call matches the calls in front of it. -/
def Consistent (calls : List SizedCall) : Prop :=
  ∀ before c after, calls = before ++ c :: after → c.Matches before

section Logs

variable {calls : List SizedCall} {c : SizedCall} {p : Nat}

theorem lastObtained_snoc : lastObtained (calls ++ [c]) p =
    if c.result = p then some (c.allocator, c.newsize) else lastObtained calls p := by
  unfold lastObtained
  rw [List.filter_append, List.filter_singleton, cond_eq_ite]
  by_cases same : c.result = p
  · rw [if_pos same, if_pos (beq_iff_eq.mpr same), List.getLast?_append]
    rfl
  · rw [if_neg same, if_neg fun is => same (beq_iff_eq.mp is), List.append_nil]

theorem consistent_nil : Consistent [] := fun before c after split =>
  absurd split.symm (List.append_ne_nil_of_right_ne_nil before (List.cons_ne_nil c after))

/-- **One call more.** -/
theorem consistent_snoc : Consistent (calls ++ [c]) ↔ Consistent calls ∧ c.Matches calls := by
  constructor
  · refine fun consistent => ⟨fun before d after split => ?_, consistent calls c [] rfl⟩
    exact consistent before d (after ++ [c]) (by rw [split, List.append_assoc]; rfl)
  · rintro ⟨consistent, last⟩ before d after split
    rcases List.eq_nil_or_concat after with rfl | ⟨rest, e, rfl⟩
    · obtain ⟨rfl, same⟩ := List.append_inj' split rfl
      cases same
      exact last
    · refine consistent before d rest ?_
      rw [List.concat_eq_append, ← List.cons_append, ← List.append_assoc] at split
      exact (List.append_inj' split rfl).1

/-- What is in front of a consistent log is consistent. -/
theorem Consistent.front {later : List SizedCall} (consistent : Consistent (calls ++ later)) :
    Consistent calls := fun before d after split =>
  consistent before d (after ++ later) (by rw [split, List.append_assoc]; rfl)

end Logs

/-- **Blocks that are held**: an address and a size for each holder that has one. -/
structure Holding {Holder : Type} (address : Nat) (calls : List SizedCall) (live : List (Nat × Nat))
    (held : Holder → Option (Nat × Nat)) : Prop where
  last : ∀ h p n, held h = some (p, n) → lastObtained calls p = some (address, n)
  live : ∀ h p n, held h = some (p, n) → (p, n) ∈ live
  pos : ∀ h p n, held h = some (p, n) → 0 < p ∧ 0 < n
  alone : ∀ h h' p n m, held h = some (p, n) → held h' = some (p, m) → h = h'

section Holders

variable {Holder : Type} {address : Nat} {calls : List SizedCall} {live live' : List (Nat × Nat)}
  {held held' : Holder → Option (Nat × Nat)}

/-- Holders may let go. -/
theorem Holding.mono (holding : Holding address calls live held)
    (fewer : ∀ h x, held' h = some x → held h = some x) : Holding address calls live held' where
  last h p n has := holding.last h p n (fewer h _ has)
  live h p n has := holding.live h p n (fewer h _ has)
  pos h p n has := holding.pos h p n (fewer h _ has)
  alone h h' p n m has has' := holding.alone h h' p n m (fewer h _ has) (fewer h' _ has')

/-- **A holder gets another block**, if any, at an address that no other holder has. -/
theorem Holding.replace (holding : Holding address calls live held) {h : Holder} {c : SizedCall}
    (gets : ∀ x, held' h = some x → x = (c.result, c.newsize)) (allocator : c.allocator = address)
    (fresh : (c.result, c.newsize) ∈ live') (pos : 0 < c.result ∧ 0 < c.newsize)
    (others : ∀ h' ≠ h, ∀ p n, held' h' = some (p, n) →
      held h' = some (p, n) ∧ (p, n) ∈ live' ∧ p ≠ c.result) :
    Holding address (calls ++ [c]) live' held' := by
  refine ⟨fun h' p n has => ?_, fun h' p n has => ?_, fun h' p n has => ?_,
    fun h₁ h₂ p n m has₁ has₂ => ?_⟩
  · rw [lastObtained_snoc]
    by_cases this : h' = h
    · subst this
      cases gets _ has
      rw [if_pos rfl, allocator]
    · obtain ⟨before, -, other⟩ := others h' this p n has
      rw [if_neg other.symm]
      exact holding.last h' p n before
  · by_cases this : h' = h
    · subst this
      cases gets _ has
      exact fresh
    · exact (others h' this p n has).2.1
  · by_cases this : h' = h
    · subst this
      cases gets _ has
      exact pos
    · exact holding.pos h' p n (others h' this p n has).1
  · by_cases first : h₁ = h
    · subst first
      by_cases second : h₂ = h₁
      · exact second.symm
      · cases gets _ has₁
        exact absurd rfl (others h₂ second _ m has₂).2.2
    · by_cases second : h₂ = h
      · subst second
        cases gets _ has₂
        exact absurd rfl (others h₁ first _ n has₁).2.2
      · exact holding.alone h₁ h₂ p n m (others h₁ first p n has₁).1 (others h₂ second p m has₂).1

/-- A block that is granted is none that is still outstanding. -/
theorem BlockAlloc.fresh {A : BlockAlloc} {heap heap' : BlockHeap} {size p : Nat}
    (granted : A.alloc heap size = some (heap', p)) (pos : 0 < size) {q n : Nat}
      (member : (q, n) ∈ heap.live)
    (some_ : 0 < n) : q ≠ p := by
  rintro rfl
  exact A.apart granted q le_rfl (Nat.lt_add_of_pos_right pos)
    ⟨(q, n), member, le_rfl, Nat.lt_add_of_pos_right some_⟩

end Holders

end Vaudou.Memory
