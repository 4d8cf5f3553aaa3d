/-
**Objects and the tokens that own them.**

The purpose of a reference-counted handle, without counts, slots or memory: a store of objects,
numbered in order of registration, and of tokens, each of which names one object until it is dropped.
Registering an object or copying an undropped token yields a token. A counted object is freed by the
drop of its last undropped token, and nothing else is freed.

* `Store.step` — one operation; only an undropped token can be copied, used or dropped.
* `Store.Sound` — a counted object has been freed exactly when no undropped token names it, and no
  object is freed twice; `Store.step_sound` keeps it.
-/

import Mathlib.Data.List.Basic
import Mathlib.Data.List.Nodup
import Mathlib.Tactic.Common

namespace Vaudou.Ownership

variable {α : Type}

/-- An object, and whether it goes with its last token. -/
structure Object (α : Type) where
  value : α
  counted : Bool

/-- The operations; a token is named by its place in the order in which tokens were made. -/
inductive Op (α : Type) where
  | register (value : α) (counted : Bool)
  | copy (token : Nat)
  | use (token : Nat)
  | drop (token : Nat)

/-- The objects registered, the object every token names (`none` once dropped), and the objects
freed, oldest first. -/
structure Store (α : Type) where
  objects : List (Object α)
  tokens : List (Option Nat)
  freed : List Nat

/-- No object, no token. -/
def Store.empty : Store α := ⟨[], [], []⟩

/-- The object an undropped token names. -/
def Store.owned (store : Store α) (token : Nat) : Option Nat := store.tokens[token]?.join

/-- Whether object `n` goes with its last token. -/
def Store.counted (store : Store α) (n : Nat) : Bool := store.objects[n]?.any Object.counted

/-- Drop a token of object `n`, and the object with it when no token is left. -/
def Store.release (store : Store α) (token n : Nat) : Store α :=
  { store with
    tokens := store.tokens.set token none
    freed := if store.counted n ∧ some n ∉ store.tokens.set token none then store.freed ++ [n]
      else store.freed }

/-- The objects an operation is the end of. -/
def Store.frees (store : Store α) : Op α → List Nat
  | .drop token => ((store.owned token).filter fun n =>
    store.counted n && store.tokens.count (some n) == 1).toList
  | _ => []

/-- One operation. -/
def Store.step (store : Store α) : Op α → Option (Store α)
  | .register value counted => some { store with
      objects := store.objects ++ [⟨value, counted⟩]
      tokens := store.tokens ++ [some store.objects.length] }
  | .copy token => (store.owned token).map fun n => { store with tokens := store.tokens ++ [some n] }
  | .use token => (store.owned token).map fun _ => store
  | .drop token => (store.owned token).map fun n => store.release token n

/-! ### Counting tokens -/

section Counting

variable {store : Store α} {token n m : Nat}

theorem Store.owned_eq_some : store.owned token = some n ↔ store.tokens[token]? = some (some n) := by
  unfold Store.owned
  cases store.tokens[token]? <;> simp

theorem Store.owned_mem (owner : store.owned token = some n) : some n ∈ store.tokens :=
  List.mem_of_getElem? (Store.owned_eq_some.mp owner)

theorem Store.owned_lt (owner : store.owned token = some n) : token < store.tokens.length :=
  (List.getElem?_eq_some_iff.mp (Store.owned_eq_some.mp owner)).1

/-- A drop leaves the other tokens. -/
theorem Store.owned_release {other : Nat} (apart : token ≠ other) :
    (store.release token n).owned other = store.owned other := by
  unfold Store.owned Store.release
  rw [List.getElem?_set_ne apart]

/-- A new token leaves the others. -/
theorem Store.owned_push {other : Nat} (below : other < store.tokens.length) (new : Option Nat) :
    ({ store with tokens := store.tokens ++ [new] } : Store α).owned other = store.owned other := by
  unfold Store.owned
  rw [List.getElem?_append_left below]

/-- **A drop takes one token from the object it names** and none from the others. -/
theorem Store.count_release (owner : store.owned token = some n) :
    (store.release token n).tokens.count (some m) + (if m = n then 1 else 0) =
      store.tokens.count (some m) := by
  obtain ⟨inside, here⟩ := List.getElem?_eq_some_iff.mp (Store.owned_eq_some.mp owner)
  have count := List.count_set (b := some m) (a := none) inside
  rw [here] at count
  have held := List.count_pos_iff.mpr (Store.owned_mem owner)
  show (store.tokens.set token none).count (some m) + _ = _
  rw [count]
  by_cases same : m = n
  · subst same
    simp only [beq_self_eq_true, if_true]
    simp
    omega
  · have apart : (some n == some m) = false := by simpa using fun equal => same equal.symm
    simp [apart, same]

/-- A token more. -/
theorem count_push (tokens : List (Option Nat)) :
    (tokens ++ [some n]).count (some m) = tokens.count (some m) + if m = n then 1 else 0 := by
  by_cases same : m = n
  · simp [same]
  · have apart : ¬ n = m := fun equal => same equal.symm
    simp [same, apart]

end Counting

/-! ### The invariant -/

/-- A counted object has been freed exactly when no undropped token names it. -/
structure Store.Sound (store : Store α) : Prop where
  owned : ∀ n, some n ∈ store.tokens → n < store.objects.length
  freed : ∀ n, n ∈ store.freed ↔ store.counted n = true ∧ some n ∉ store.tokens
  nodup : store.freed.Nodup

section Invariant

variable {store next : Store α} {token n : Nat}

theorem Store.counted_lt (counted : store.counted n = true) : n < store.objects.length := by
  by_contra outside
  rw [Store.counted, List.getElem?_eq_none (by omega)] at counted
  cases counted

theorem Store.empty_sound : (Store.empty : Store α).Sound where
  owned n member := nomatch member
  freed n := by simp [Store.empty, Store.counted]
  nodup := List.nodup_nil

theorem Store.Sound.not_freed (sound : store.Sound) (member : some n ∈ store.tokens) :
    n ∉ store.freed := fun freed => ((sound.freed n).mp freed).2 member

theorem Store.register_counted (store : Store α) (value : α) (counted : Bool) (n : Nat) :
    ({ store with objects := store.objects ++ [⟨value, counted⟩] } : Store α).counted n =
      if n = store.objects.length then counted else store.counted n := by
  unfold Store.counted
  split
  · rename_i last
    subst last
    simp
  · rename_i other
    rcases Nat.lt_or_gt_of_ne other with below | above
    · rw [List.getElem?_append_left below]
    · have outside : store.objects.length + 1 ≤ n := above
      rw [List.getElem?_eq_none (by simpa using outside), List.getElem?_eq_none (by omega)]

theorem Store.register_sound (sound : store.Sound) (value : α) (counted : Bool) :
    ({ store with
        objects := store.objects ++ [⟨value, counted⟩]
        tokens := store.tokens ++ [some store.objects.length] } : Store α).Sound where
  owned n member := by
    show n < (store.objects ++ [_]).length
    rw [List.length_append, List.length_singleton]
    rcases List.mem_append.mp member with older | newest
    · exact Nat.lt_succ_of_lt (sound.owned n older)
    · obtain rfl := Option.some.inj (List.mem_singleton.mp newest)
      exact Nat.lt_succ_self _
  freed n := by
    have counts := Store.register_counted store value counted n
    show n ∈ store.freed ↔ Store.counted ⟨store.objects ++ _, _, _⟩ n = true ∧ _
    rw [Store.counted] at counts ⊢
    rw [counts, sound.freed, List.mem_append, List.mem_singleton, Option.some_inj]
    split
    · rename_i last
      constructor
      · rintro ⟨counted, -⟩
        have := Store.counted_lt counted
        omega
      · rintro ⟨-, new⟩
        exact absurd (Or.inr last) new
    · rename_i other
      simp only [other, or_false]
  nodup := sound.nodup

theorem Store.copy_sound (sound : store.Sound) (owner : store.owned token = some n) :
    ({ store with tokens := store.tokens ++ [some n] } : Store α).Sound where
  owned m member := by
    rcases List.mem_append.mp member with older | newest
    · exact sound.owned m older
    · obtain rfl := Option.some.inj (List.mem_singleton.mp newest)
      exact sound.owned m (Store.owned_mem owner)
  freed m := by
    rw [sound.freed]
    refine and_congr_right fun _ => not_congr ?_
    rw [List.mem_append, List.mem_singleton, Option.some_inj]
    constructor
    · exact Or.inl
    · rintro (older | rfl)
      · exact older
      · exact Store.owned_mem owner
  nodup := sound.nodup

theorem Store.release_sound (sound : store.Sound) (owner : store.owned token = some n) :
    (store.release token n).Sound where
  owned m member := by
    rcases List.mem_or_eq_of_mem_set member with older | new
    · exact sound.owned m older
    · cases new
  freed m := by
    have count := Store.count_release (m := m) owner
    show m ∈ (store.release token n).freed ↔
      store.counted m = true ∧ some m ∉ (store.release token n).tokens
    rw [← List.count_eq_zero]
    by_cases last : store.counted n = true ∧ some n ∉ store.tokens.set token none
    · rw [show (store.release token n).freed = store.freed ++ [n] from if_pos last,
        List.mem_append, List.mem_singleton, sound.freed, ← List.count_eq_zero]
      by_cases same : m = n
      · subst same
        exact ⟨fun _ => ⟨last.1, List.count_eq_zero.mpr last.2⟩, fun _ => Or.inr rfl⟩
      · rw [if_neg same, Nat.add_zero] at count
        rw [count, or_iff_left same]
    · rw [show (store.release token n).freed = store.freed from if_neg last, sound.freed,
        ← List.count_eq_zero]
      by_cases same : m = n
      · subst same
        constructor
        · rintro ⟨-, none⟩
          exact absurd (Store.owned_mem owner) (List.count_eq_zero.mp none)
        · rintro ⟨counted, none⟩
          exact absurd ⟨counted, List.count_eq_zero.mp none⟩ last
      · rw [if_neg same, Nat.add_zero] at count
        rw [count]
  nodup := by
    unfold Store.release
    show List.Nodup (if _ then _ else _)
    split
    · refine List.Nodup.append sound.nodup (List.nodup_singleton n) ?_
      rw [List.disjoint_singleton]
      exact sound.not_freed (Store.owned_mem owner)
    · exact sound.nodup

/-- **One operation keeps the invariant.** -/
theorem Store.step_sound (store : Store α) (op : Op α) (next : Store α) (sound : store.Sound)
    (stepped : store.step op = some next) : next.Sound := by
  cases op with
  | register value counted =>
    cases stepped
    exact Store.register_sound sound value counted
  | copy token =>
    obtain ⟨n, owner, rfl⟩ := Option.map_eq_some_iff.mp stepped
    exact Store.copy_sound sound owner
  | use token =>
    obtain ⟨n, owner, rfl⟩ := Option.map_eq_some_iff.mp stepped
    exact sound
  | drop token =>
    obtain ⟨n, owner, rfl⟩ := Option.map_eq_some_iff.mp stepped
    exact Store.release_sound sound owner

/-- **What an operation frees**: nothing, or the object whose last token it drops. -/
theorem Store.step_freed {op : Op α} (stepped : store.step op = some next) :
    next.freed = store.freed ++ store.frees op := by
  cases op with
  | register value counted =>
    cases stepped
    exact (List.append_nil _).symm
  | copy token =>
    obtain ⟨n, owner, rfl⟩ := Option.map_eq_some_iff.mp stepped
    exact (List.append_nil _).symm
  | use token =>
    obtain ⟨n, owner, rfl⟩ := Option.map_eq_some_iff.mp stepped
    exact (List.append_nil _).symm
  | drop token =>
    obtain ⟨n, owner, rfl⟩ := Option.map_eq_some_iff.mp stepped
    have count := Store.count_release (m := n) owner
    rw [if_pos rfl] at count
    have last : some n ∉ store.tokens.set token none ↔ store.tokens.count (some n) = 1 := by
      rw [← List.count_eq_zero, ← count]
      exact (Nat.succ_inj (a := List.count (some n) (store.tokens.set token none)) (b := 0)).symm
    show (if _ then _ else _) = store.freed ++ Option.toList _
    rw [owner, Option.filter_some]
    simp only [last]
    by_cases frees : store.counted n = true ∧ store.tokens.count (some n) = 1
    · rw [if_pos frees, frees.1, frees.2]
      rfl
    · have kept : (store.counted n && store.tokens.count (some n) == 1) = false := by
        simpa using frees
      rw [if_neg frees, kept]
      exact (List.append_nil _).symm

end Invariant

end Vaudou.Ownership
