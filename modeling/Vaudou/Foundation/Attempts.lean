/-
**A matcher that starts anew after a mismatch.**

`attempt needle k text` has matched `k` elements of the needle. An element that is not the next one ends
the attempt and belongs to it: the next attempt starts behind. So an occurrence is found exactly if what
stands before it splits into failed attempts (`attempt_finds_iff`), and every occurrence that is found is
one (`attempt_cases`).

* `FailedAttempts.of_constant`: before the first occurrence of one element repeated there is nothing else.
* `exists_missed`: any other needle has an occurrence that is missed.
-/

import Mathlib.Data.List.Basic
import Mathlib.Tactic.Linarith

namespace Vaudou.Matching

variable {α : Type*}

/-- A text that splits into failed attempts: elements of the needle, and one that is not the next. -/
inductive FailedAttempts (needle : List α) : List α → Prop
  | nil : FailedAttempts needle []
  | cons (k : Nat) (x : α) (text : List α) : k < needle.length → needle[k]? ≠ some x →
      FailedAttempts needle text → FailedAttempts needle (needle.take k ++ x :: text)

/-- The first of the failed attempts. -/
theorem FailedAttempts.first {needle before : List α} (failed : FailedAttempts needle before) :
    before = [] ∨ ∃ j y rest, j < needle.length ∧ needle[j]? ≠ some y ∧
      before = needle.take j ++ y :: rest := by
  cases failed with
  | nil => exact Or.inl rfl
  | cons j y rest inside other _ => exact Or.inr ⟨j, y, rest, inside, other, rfl⟩

/-! ### The matcher -/

section Attempts

variable [DecidableEq α]

/-- The matcher with `k` elements of the needle matched. It returns the length of what stands behind. -/
def attempt (needle : List α) : (k : Nat) → (text : List α) → Option Nat
  | _, [] => none
  | k, x :: text =>
    if needle[k]? = some x then
      if k + 1 = needle.length then some text.length else attempt needle (k + 1) text
    else attempt needle 0 text

variable {needle text : List α} {k : Nat} {x : α}

theorem attempt_match (next : needle[k]? = some x) (more : k + 1 < needle.length) :
    attempt needle k (x :: text) = attempt needle (k + 1) text := by
  rw [attempt, if_pos next, if_neg more.ne]

theorem attempt_last (next : needle[k]? = some x) (last : k + 1 = needle.length) :
    attempt needle k (x :: text) = some text.length := by
  rw [attempt, if_pos next, if_pos last]

theorem attempt_mismatch (other : needle[k]? ≠ some x) :
    attempt needle k (x :: text) = attempt needle 0 text := by
  rw [attempt, if_neg other]

/-- The needle from `k` on is matched. -/
theorem attempt_front (needle text : List α) : ∀ (j : Nat) {k : Nat}, k + j < needle.length →
    attempt needle k ((needle.drop k).take j ++ text) = attempt needle (k + j) text
  | 0, k, _ => rfl
  | j + 1, k, inside => by
    have here : k < needle.length := by omega
    rw [List.drop_eq_getElem_cons here, List.take_succ_cons, List.cons_append,
      attempt_match (List.getElem?_eq_getElem here) (by omega), attempt_front needle text j (by omega),
      Nat.add_right_comm, Nat.add_assoc]

/-- **Failed attempts are passed.** -/
theorem FailedAttempts.pass {before : List α} (failed : FailedAttempts needle before) (text : List α) :
    attempt needle 0 (before ++ text) = attempt needle 0 text := by
  induction failed with
  | nil => rfl
  | cons k x later inside other _ ih =>
    have front := attempt_front needle (x :: (later ++ text)) k (k := 0) (by omega)
    rw [List.drop_zero, Nat.zero_add] at front
    rw [List.append_assoc, List.cons_append, front, attempt_mismatch other, ih]

/-- The whole needle is matched. -/
theorem attempt_needle (nonempty : needle ≠ []) (text : List α) :
    attempt needle 0 (needle ++ text) = some text.length := by
  have pos := List.length_pos_iff.mpr nonempty
  have last : needle.length - 1 < needle.length := by omega
  have split : needle ++ text =
      needle.take (needle.length - 1) ++ needle[needle.length - 1] :: text := by
    rw [← List.singleton_append, ← List.append_assoc, List.take_append_getElem last,
      Nat.sub_add_cancel pos, List.take_length]
  have front := attempt_front needle (needle[needle.length - 1] :: text) (needle.length - 1) (k := 0)
    (by omega)
  rw [List.drop_zero, Nat.zero_add] at front
  rw [split, front, attempt_last (List.getElem?_eq_getElem last) (by omega)]

/-- **What the matcher has read**: failed attempts, and behind them the needle or a part of it. -/
theorem attempt_cases : ∀ (text : List α) {k : Nat}, k < needle.length →
    (attempt needle k text = none ∧ ∃ before k', FailedAttempts needle before ∧ k' < needle.length ∧
      needle.take k ++ text = before ++ needle.take k') ∨
    ∃ before behind, attempt needle k text = some behind.length ∧ FailedAttempts needle before ∧
      needle.take k ++ text = before ++ needle ++ behind
  | [], k, inside => Or.inl ⟨rfl, [], k, .nil, inside, by rw [List.append_nil, List.nil_append]⟩
  | x :: text, k, inside => by
    by_cases next : needle[k]? = some x
    · have longer : needle.take k ++ x :: text = needle.take (k + 1) ++ text := by
        obtain ⟨_, same⟩ := List.getElem?_eq_some_iff.mp next
        rw [← List.take_append_getElem inside, same, List.append_assoc, List.singleton_append]
      rcases Nat.lt_or_eq_of_le (Nat.succ_le_of_lt inside) with more | last
      · rw [attempt_match next more, longer]
        exact attempt_cases text more
      · refine Or.inr ⟨[], text, attempt_last next last, .nil, ?_⟩
        rw [longer, show k + 1 = needle.length from last, List.take_length, List.nil_append]
    · rw [attempt_mismatch next]
      have pos : 0 < needle.length := by omega
      rcases attempt_cases text pos with ⟨none, before, k', failed, inside', whole⟩ |
        ⟨before, behind, found, failed, whole⟩
      · refine Or.inl ⟨none, _, k', .cons k x before inside next failed, inside', ?_⟩
        rw [List.take_zero, List.nil_append] at whole
        rw [whole, List.append_assoc, List.cons_append]
      · refine Or.inr ⟨_, behind, found, .cons k x before inside next failed, ?_⟩
        rw [List.take_zero, List.nil_append] at whole
        rw [whole]
        simp only [List.append_assoc, List.cons_append]

/-- **An occurrence is found** exactly if failed attempts stand before it. -/
theorem attempt_finds_iff (nonempty : needle ≠ []) (before behind : List α) :
    attempt needle 0 (before ++ needle ++ behind) = some behind.length ↔
      FailedAttempts needle before := by
  constructor
  · intro found
    rcases attempt_cases (before ++ needle ++ behind) (List.length_pos_iff.mpr nonempty) with
      ⟨none, -⟩ | ⟨before', behind', found', failed, whole⟩
    · rw [found] at none
      cases none
    · rw [found] at found'
      have lengths := Option.some.inj found'
      rw [List.take_zero, List.nil_append] at whole
      obtain ⟨front, -⟩ := List.append_inj' whole lengths
      obtain ⟨same, -⟩ := List.append_inj' front rfl
      rwa [same]
  · intro failed
    rw [List.append_assoc, failed.pass, attempt_needle nonempty]

end Attempts

/-! ### Needles that are never missed -/

section Needles

variable {needle before : List α} {a : α}

/-- The needle stands in `before ++ needle` only at the end. -/
def OnlyBehind (needle before : List α) : Prop :=
  ∀ front back, before ++ needle = front ++ needle ++ back → before.length ≤ front.length

/-- A list begins with a run of `a`, and then something else or nothing. -/
theorem exists_run (a : α) : ∀ l : List α,
    (∃ j, l = List.replicate j a) ∨ ∃ j x later, l = List.replicate j a ++ x :: later ∧ x ≠ a
  | [] => Or.inl ⟨0, rfl⟩
  | x :: l => by
    by_cases same : x = a
    · subst same
      rcases exists_run x l with ⟨j, rfl⟩ | ⟨j, y, later, rfl, other⟩
      · exact Or.inl ⟨j + 1, rfl⟩
      · exact Or.inr ⟨j + 1, y, later, rfl, other⟩
    · exact Or.inr ⟨0, x, l, rfl, same⟩

/-- **One element repeated** is never missed. -/
theorem FailedAttempts.of_constant {m : Nat} : ∀ (n : Nat) {before : List α}, before.length ≤ n →
    OnlyBehind (List.replicate (m + 1) a) before → FailedAttempts (List.replicate (m + 1) a) before
  | n, before, bound, only => by
    rcases exists_run a before with ⟨j, rfl⟩ | ⟨j, x, later, rfl, other⟩
    · have short := only [] (List.replicate j a) (by
        rw [List.nil_append, List.replicate_append_replicate, List.replicate_append_replicate,
          Nat.add_comm])
      obtain rfl : j = 0 := by simpa using short
      exact .nil
    · have proper : j < m + 1 := by
        by_contra long
        have short := only [] (List.replicate (j - (m + 1)) a ++ x :: later ++ List.replicate (m + 1) a) (by
          rw [List.nil_append, ← List.append_assoc, ← List.append_assoc, List.replicate_append_replicate,
            Nat.add_sub_cancel' (by omega)])
        simp at short
      have taken : (List.replicate (m + 1) a).take j = List.replicate j a := by
        rw [List.take_replicate, min_eq_left proper.le]
      have mismatch : (List.replicate (m + 1) a)[j]? ≠ some x := by
        rw [List.getElem?_replicate, if_pos proper]
        exact fun same => other (Option.some.inj same).symm
      cases n with
      | zero => simp at bound
      | succ n =>
        have rest : FailedAttempts (List.replicate (m + 1) a) later := by
          refine of_constant n (by simp at bound; omega) fun front back whole => ?_
          have longer := only (List.replicate j a ++ x :: front) back (by
            simp only [List.append_assoc, List.cons_append] at whole ⊢
            rw [whole])
          simp at longer
          omega
        rw [← taken]
        exact .cons j x later (by simpa using proper) mismatch rest

/-- **Any other needle is missed** behind its own first element. -/
theorem exists_missed {x : α} {later : List α} {k : Nat} (other : x ≠ a)
    (is : needle = List.replicate (k + 1) a ++ x :: later) :
    OnlyBehind needle [a] ∧ ¬ FailedAttempts needle [a] := by
  subst is
  refine ⟨fun front back whole => ?_, fun failed => ?_⟩
  · cases front with
    | cons => simp
    | nil =>
      -- the needle's `x` would stand in the run of `a`
      have run : ([a] ++ (List.replicate (k + 1) a ++ x :: later))[k + 1]? = some a := by
        rw [List.singleton_append, List.getElem?_cons_succ, List.getElem?_append_left (by simp),
          List.getElem?_replicate, if_pos (Nat.lt_succ_self k)]
      have here : ([] ++ (List.replicate (k + 1) a ++ x :: later) ++ back)[k + 1]? = some x := by
        rw [List.nil_append, List.append_assoc, List.getElem?_append_right (by simp),
          List.length_replicate, Nat.sub_self, List.cons_append, List.getElem?_cons_zero]
      rw [← whole, run] at here
      exact absurd (Option.some.inj here).symm other
  · rcases failed.first with empty | ⟨j, y, rest, inside, mismatch, whole⟩
    · simp at empty
    · have lengths := congrArg List.length whole
      rw [List.length_append, List.length_take, min_eq_left inside.le, List.length_singleton,
        List.length_cons] at lengths
      obtain rfl : j = 0 := by omega
      simp at whole
      simp [whole.1] at mismatch

end Needles

end Vaudou.Matching
