/-
**Searching a string from the right.**

`vd_str_last_of_s` compares the string with the needle from their right ends. After a mismatch it starts
the needle anew, but with the next byte: the byte that did not match is not compared again. The loop is the
matcher of `Foundation.Attempts` on the reversed strings (`lastOfSLoop_eq`).

* `lastOfS_sound` — what is found is an occurrence.
* `lastOfS_exact_iff` — it is the last one exactly if failed attempts stand behind that, and the empty
  needle is searched in the empty string only.
* `lastOfS_always_iff` — the needles that are found in every string.
-/

import Vaudou.Foundation.Attempts
import Vaudou.Foundation.Decimal
import Mathlib.Data.Nat.Find

namespace Vaudou

open Vaudou.Matching Vaudou.Text

/-- The bytes of a `VD_str`; its `len` is a `u32`. -/
structure StrBytes where
  bytes : List UInt8
  short : bytes.length < 2 ^ 32

/-- `len`. -/
def StrBytes.len (s : StrBytes) : Nat := s.bytes.length

/-- `--i` at `u32`. -/
def u32Pred (i : Nat) : Nat := if i = 0 then 2 ^ 32 - 1 else i - 1

/-- The loop of `vd_str_last_of_s`. `none` is a read outside of a string. -/
def lastOfSLoop (s c : StrBytes) : (i sindex : Nat) → Option Nat
  | 0, _ => some s.len
  | i + 1, sindex => do
    let sindex := u32Pred sindex
    let here ← s.bytes[i]?
    let wanted ← c.bytes[sindex]?
    let sindex := if here ≠ wanted then c.len else sindex
    if sindex = 0 then some i else lastOfSLoop s c i sindex

/-- `vd_str_last_of_s`. -/
def lastOfS (s c : StrBytes) (start : Nat) : Option Nat :=
  if s.len = 0 then some s.len
  else
    let start := if s.len < start then s.len else start
    lastOfSLoop s c start c.len

/-! ### What the search should return -/

/-- The part of the string that is searched. -/
def searchedPart (s : StrBytes) (start : Nat) : List UInt8 := s.bytes.take (min start s.len)

/-- The needle stands at `p`, inside of the part that is searched. -/
def OccursAt (s c : StrBytes) (start p : Nat) : Prop :=
  p + c.len ≤ min start s.len ∧ (s.bytes.drop p).take c.len = c.bytes

instance (s c : StrBytes) (start p : Nat) : Decidable (OccursAt s c start p) :=
  inferInstanceAs (Decidable (_ ≤ _ ∧ _ = _))

/-- The greatest place where the needle stands. -/
def LastAt (s c : StrBytes) (start p : Nat) : Prop :=
  OccursAt s c start p ∧ ∀ q, OccursAt s c start q → q ≤ p

/-- **The right result**: the last place, or the length of the string if there is none. -/
def IsLastOf (s c : StrBytes) (start result : Nat) : Prop :=
  LastAt s c start result ∨ (∀ p, ¬ OccursAt s c start p) ∧ result = s.len

/-- The search returns the right result. -/
def SearchExact (s c : StrBytes) (start : Nat) : Prop :=
  ∃ result, lastOfS s c start = some result ∧ IsLastOf s c start result

/-- **The bytes behind the last occurrence**, from right to left, split into failed attempts. The empty
needle is searched in the empty string only. -/
def Reached (s c : StrBytes) (start : Nat) : Prop :=
  (c.bytes = [] → s.bytes = []) ∧ ∀ p, LastAt s c start p →
    FailedAttempts c.bytes.reverse ((searchedPart s start).drop (p + c.len)).reverse

variable {s c : StrBytes} {start p q : Nat}

/-! ### Occurrences in the reversed string -/

section Occurrences

theorem searchedPart_length : (searchedPart s start).length = min start s.len := by
  rw [searchedPart, List.length_take]
  exact min_eq_left (min_le_right start s.len)

/-- An occurrence cuts the searched part in three. -/
theorem OccursAt.cut (here : OccursAt s c start p) :
    searchedPart s start =
      (searchedPart s start).take p ++ c.bytes ++ (searchedPart s start).drop (p + c.len) := by
  obtain ⟨inside, stands⟩ := here
  have middle : ((searchedPart s start).drop p).take c.len = c.bytes := by
    rw [searchedPart, List.drop_take, List.take_take, min_eq_left (by omega), stands]
  rw [← List.drop_drop, ← middle, List.append_assoc, List.take_append_drop, List.take_append_drop]

/-- **What is cut like that** is an occurrence. -/
theorem occursAt_of_cut {front behind : List UInt8}
    (cut : searchedPart s start = front ++ c.bytes ++ behind) : OccursAt s c start front.length := by
  have lengths := congrArg List.length cut
  rw [searchedPart_length, List.length_append, List.length_append] at lengths
  refine ⟨by show front.length + c.bytes.length ≤ _; omega, ?_⟩
  have whole := List.take_append_drop (min start s.len) s.bytes
  rw [← searchedPart, cut, List.append_assoc, List.append_assoc] at whole
  rw [← whole, List.drop_left, StrBytes.len, List.take_left]

theorem LastAt.unique (here : LastAt s c start p) (there : LastAt s c start q) : p = q :=
  le_antisymm (there.2 p here.1) (here.2 q there.1)

/-- There is a last occurrence if there is any. -/
theorem OccursAt.exists_last (here : OccursAt s c start p) : ∃ p, LastAt s c start p := by
  have bounded : ∀ q, OccursAt s c start q → q ≤ min start s.len := fun q there =>
    (Nat.le_add_right q c.len).trans there.1
  exact ⟨Nat.findGreatest (OccursAt s c start) (min start s.len),
    Nat.findGreatest_spec (bounded p here) here, fun q there => Nat.le_findGreatest (bounded q there) there⟩

end Occurrences

/-! ### The loop -/

section Loop

theorem u32Pred_succ (k : Nat) : u32Pred (k + 1) = k := rfl

/-- **The loop is the matcher**, on what is left of the string, from right to left. -/
theorem lastOfSLoop_eq : ∀ (i k : Nat), i ≤ s.len → k < c.len →
    lastOfSLoop s c i (c.len - k) =
      some ((attempt c.bytes.reverse k (s.bytes.take i).reverse).getD s.len)
  | 0, k, _, _ => rfl
  | i + 1, k, inside, proper => by
    have read : s.bytes[i]? = some s.bytes[i] := List.getElem?_eq_getElem inside
    have text : (s.bytes.take (i + 1)).reverse = s.bytes[i] :: (s.bytes.take i).reverse := by
      rw [← List.take_append_getElem inside, List.reverse_append]
      rfl
    have index : u32Pred (c.len - k) = c.len - 1 - k := by
      rw [show c.len - k = c.len - 1 - k + 1 by omega, u32Pred_succ]
    have wanted : c.bytes.reverse[k]? = c.bytes[c.len - 1 - k]? := List.getElem?_reverse proper
    have place : c.len - 1 - k < c.bytes.length := by
      show _ < c.len
      omega
    have byte : c.bytes[c.len - 1 - k]? = some c.bytes[c.len - 1 - k] := List.getElem?_eq_getElem place
    have count : (s.bytes.take i).reverse.length = i := by
      rw [List.length_reverse, List.length_take]
      exact min_eq_left (Nat.le_of_succ_le inside)
    rw [lastOfSLoop, index, read, byte, text]
    simp only [Option.bind_eq_bind, Option.bind_some]
    by_cases same : s.bytes[i] = c.bytes[c.len - 1 - k]
    · rw [if_neg (not_not.mpr same)]
      have next : c.bytes.reverse[k]? = some s.bytes[i] := by rw [wanted, byte, same]
      by_cases last : k + 1 = c.len
      · have last' : k + 1 = c.bytes.reverse.length := by rw [List.length_reverse]; exact last
        rw [if_pos (by omega), attempt_last next last', count]
        rfl
      · have more : k + 1 < c.bytes.reverse.length := by
          rw [List.length_reverse]
          show k + 1 < c.len
          omega
        rw [if_neg (by omega), attempt_match next more, show c.len - 1 - k = c.len - (k + 1) by omega]
        exact lastOfSLoop_eq i (k + 1) (Nat.le_of_succ_le inside) (by omega)
    · rw [if_pos same]
      have other : c.bytes.reverse[k]? ≠ some s.bytes[i] := by
        rw [wanted, byte]
        exact fun same' => same (Option.some.inj same').symm
      rw [if_neg (by omega), attempt_mismatch other]
      exact lastOfSLoop_eq i 0 (Nat.le_of_succ_le inside) (by omega)

theorem lastOfS_min : lastOfS s c start =
    if s.len = 0 then some s.len else lastOfSLoop s c (min start s.len) c.len := by
  have bound : (if s.len < start then s.len else start) = min start s.len := by
    split <;> omega
  unfold lastOfS
  simp only [bound]

variable (s start) in
/-- **The search with a needle** is the matcher on the searched part. -/
theorem lastOfS_eq (nonempty : c.bytes ≠ []) :
    lastOfS s c start =
      some ((attempt c.bytes.reverse 0 (searchedPart s start).reverse).getD s.len) := by
  rw [lastOfS_min]
  split
  next empty =>
    have nothing : searchedPart s start = [] :=
      List.length_eq_zero_iff.mp (by rw [searchedPart_length]; omega)
    rw [nothing]
    rfl
  next => exact lastOfSLoop_eq _ 0 (min_le_right start s.len) (List.length_pos_iff.mpr nonempty)

variable (s start) in
/-- **What the search returns**: an occurrence, or the length of the string. -/
theorem lastOfS_cases (nonempty : c.bytes ≠ []) :
    (lastOfS s c start = some s.len ∧
      attempt c.bytes.reverse 0 (searchedPart s start).reverse = none) ∨
    ∃ p, lastOfS s c start = some p ∧ OccursAt s c start p ∧
      attempt c.bytes.reverse 0 (searchedPart s start).reverse = some p := by
  have pos : 0 < c.bytes.reverse.length := by
    rw [List.length_reverse]
    exact List.length_pos_iff.mpr nonempty
  have ran := lastOfS_eq s start nonempty
  rcases attempt_cases (searchedPart s start).reverse pos with ⟨none, -⟩ | ⟨before, behind, found, -, whole⟩
  · rw [none] at ran
    exact Or.inl ⟨ran, none⟩
  · rw [found] at ran
    refine Or.inr ⟨behind.length, ran, ?_, found⟩
    rw [List.take_zero, List.nil_append, List.reverse_eq_iff] at whole
    simp only [List.reverse_append, List.reverse_reverse] at whole
    rw [← List.append_assoc] at whole
    have here := occursAt_of_cut whole
    rwa [List.length_reverse] at here

/-- An occurrence is found exactly if failed attempts stand behind it. -/
theorem OccursAt.found_iff (here : OccursAt s c start p) (nonempty : c.bytes ≠ []) :
    attempt c.bytes.reverse 0 (searchedPart s start).reverse = some p ↔
      FailedAttempts c.bytes.reverse ((searchedPart s start).drop (p + c.len)).reverse := by
  have nonempty' : c.bytes.reverse ≠ [] := by simpa using nonempty
  have front : ((searchedPart s start).take p).reverse.length = p := by
    have inside := here.1
    rw [List.length_reverse, List.length_take, searchedPart_length]
    omega
  have cut := congrArg List.reverse here.cut
  rw [List.reverse_append, List.reverse_append, ← List.append_assoc] at cut
  have found := attempt_finds_iff nonempty' ((searchedPart s start).drop (p + c.len)).reverse
    ((searchedPart s start).take p).reverse
  rwa [front, ← cut] at found

/-- **With a needle the search is exact** exactly if it reaches the last occurrence. -/
theorem searchExact_iff (nonempty : c.bytes ≠ []) :
    SearchExact s c start ↔ ∀ p, LastAt s c start p →
      FailedAttempts c.bytes.reverse ((searchedPart s start).drop (p + c.len)).reverse := by
  have pos : 0 < c.len := List.length_pos_iff.mpr nonempty
  constructor
  · rintro ⟨result, ran, right⟩ p last
    obtain rfl : result = p := by
      rcases right with last' | ⟨none, -⟩
      · exact last'.unique last
      · exact absurd last.1 (none p)
    refine (last.1.found_iff nonempty).mp ?_
    rcases lastOfS_cases s start nonempty with ⟨ran', -⟩ | ⟨q, ran', -, found⟩
    · have inside := last.1.1
      have outside := Option.some.inj (ran.symm.trans ran')
      omega
    · rw [Option.some.inj (ran.symm.trans ran')]
      exact found
  · intro reached
    by_cases occurs : ∃ p, OccursAt s c start p
    · obtain ⟨p, here⟩ := occurs
      obtain ⟨p, last⟩ := here.exists_last
      refine ⟨p, ?_, Or.inl last⟩
      rw [lastOfS_eq s start nonempty, (last.1.found_iff nonempty).mpr (reached p last), Option.getD_some]
    · rcases lastOfS_cases s start nonempty with ⟨ran, -⟩ | ⟨q, -, here, -⟩
      · exact ⟨s.len, ran, Or.inr ⟨fun p here => occurs ⟨p, here⟩, rfl⟩⟩
      · exact absurd ⟨q, here⟩ occurs

/-- The empty needle is read outside of itself. -/
theorem lastOfS_empty (empty : c.bytes = []) :
    lastOfS s c start = if min start s.len = 0 then some s.len else none := by
  rw [lastOfS_min]
  split
  next nothing => rw [nothing, Nat.min_zero, if_pos rfl]
  next =>
    cases min start s.len with
    | zero => rfl
    | succ i =>
      rw [lastOfSLoop, empty, if_neg (Nat.succ_ne_zero i)]
      cases s.bytes[i]? <;> rfl

end Loop

/-! ### The search -/

section Search

/-- **What is found is an occurrence.** -/
theorem lastOfS_sound (ran : lastOfS s c start = some p) : p = s.len ∨ OccursAt s c start p := by
  by_cases empty : c.bytes = []
  · rw [lastOfS_empty empty] at ran
    split at ran
    · exact Or.inl (Option.some.inj ran).symm
    · cases ran
  · rcases lastOfS_cases s start empty with ⟨ran', -⟩ | ⟨q, ran', here, -⟩
    · exact Or.inl (Option.some.inj (ran.symm.trans ran'))
    · rw [Option.some.inj (ran.symm.trans ran')]
      exact Or.inr here

/-- With the empty needle the search is exact in the empty string only. -/
theorem searchExact_empty (empty : c.bytes = []) : SearchExact s c start ↔ s.bytes = [] := by
  have none : c.len = 0 := List.length_eq_zero_iff.mpr empty
  have everywhere : ∀ q ≤ min start s.len, OccursAt s c start q := fun q inside =>
    ⟨by omega, by rw [none, empty, List.take_zero]⟩
  rw [SearchExact, lastOfS_empty empty, ← List.length_eq_zero_iff]
  show _ ↔ s.len = 0
  constructor
  · rintro ⟨result, ran, right⟩
    split at ran
    next zero =>
      have result_ := Option.some.inj ran
      rcases right with last | ⟨nowhere, -⟩
      · have inside := last.1.1
        omega
      · exact absurd (everywhere 0 (Nat.zero_le _)) (nowhere 0)
    next => cases ran
  · intro nothing
    refine ⟨0, ?_, Or.inl ⟨everywhere 0 (Nat.zero_le _), fun q here => ?_⟩⟩
    · rw [nothing, Nat.min_zero, if_pos rfl]
    · have inside := here.1
      omega

/-- **The search from the right is exact** exactly if failed attempts stand behind the last occurrence, and
with the empty needle in the empty string only. -/
theorem lastOfS_exact_iff (s c : StrBytes) (start : Nat) :
    SearchExact s c start ↔ Reached s c start := by
  by_cases empty : c.bytes = []
  · rw [searchExact_empty empty]
    refine ⟨fun nothing => ⟨fun _ => nothing, fun p _ => ?_⟩, fun reached => reached.1 empty⟩
    rw [searchedPart, nothing, List.take_nil, List.drop_nil]
    exact .nil
  · rw [searchExact_iff empty]
    exact ⟨fun reached => ⟨fun absurd_ => absurd absurd_ empty, reached⟩, fun reached => reached.2⟩

/-- **"ab" in "abb"** is missed: the second b ends the first attempt. -/
theorem overlap_missed : ¬ ∀ (s c : StrBytes) (start : Nat), SearchExact s c start := by
  intro claimed
  obtain ⟨result, ran, right⟩ := claimed ⟨ascii "abb", by decide⟩ ⟨ascii "ab", by decide⟩ 3
  have returned : lastOfS ⟨ascii "abb", by decide⟩ ⟨ascii "ab", by decide⟩ 3 = some 3 := by
    decide +kernel
  obtain rfl := Option.some.inj (ran.symm.trans returned)
  rcases right with last | ⟨nowhere, -⟩
  · exact absurd last.1 (by decide +kernel)
  · exact absurd (nowhere 0) (by decide +kernel)

theorem searchedPart_whole {bytes : List UInt8} (short : bytes.length < 2 ^ 32) :
    searchedPart ⟨bytes, short⟩ bytes.length = bytes := by
  rw [searchedPart, StrBytes.len, min_self, List.take_length]

/-- One byte behind a needle that cannot begin there. -/
theorem lastAt_behind {a : UInt8} (only : OnlyBehind c.bytes.reverse [a])
    (room : (c.bytes ++ [a]).length < 2 ^ 32) :
    LastAt ⟨c.bytes ++ [a], room⟩ c (c.bytes ++ [a]).length 0 := by
  have cut : searchedPart ⟨c.bytes ++ [a], room⟩ (c.bytes ++ [a]).length = [] ++ c.bytes ++ [a] :=
    searchedPart_whole room
  refine ⟨occursAt_of_cut cut, fun q here => ?_⟩
  have cut := congrArg List.reverse here.cut
  rw [searchedPart_whole] at cut
  simp only [List.reverse_append] at cut
  rw [← List.append_assoc] at cut
  have behind := only _ _ cut
  rw [List.length_reverse, List.length_drop, List.length_append, List.length_singleton] at behind
  show q ≤ 0
  have length : c.len = c.bytes.length := rfl
  omega

/-- **The needles that are found in every string** are one byte repeated. -/
theorem lastOfS_always_iff (c : StrBytes) (small : c.len + 1 < 2 ^ 32) :
    (∀ s start, SearchExact s c start) ↔ ∃ m a, c.bytes = List.replicate (m + 1) a := by
  constructor
  · intro always
    cases reversed : c.bytes.reverse with
    | nil =>
      have empty : c.bytes = [] := by simpa using reversed
      have nothing := (searchExact_empty empty).mp (always ⟨[0], by norm_num⟩ 0)
      cases nothing
    | cons a later =>
      have nonempty : c.bytes ≠ [] := by
        rintro empty
        simp [empty] at reversed
      rcases exists_run a later with ⟨m, rfl⟩ | ⟨m, x, behind, rfl, other⟩
      · refine ⟨m, a, ?_⟩
        rw [← List.reverse_reverse c.bytes, reversed, ← List.replicate_succ, List.reverse_replicate]
      · -- one more `a` behind the needle is a failed attempt that takes the needle's last byte
        obtain ⟨only, missed⟩ := exists_missed other reversed
        have room : (c.bytes ++ [a]).length < 2 ^ 32 := by
          rw [List.length_append, List.length_singleton]
          exact small
        have reached := (searchExact_iff nonempty).mp (always ⟨c.bytes ++ [a], room⟩ _) 0
          (lastAt_behind only room)
        rw [searchedPart_whole, Nat.zero_add, StrBytes.len, List.drop_left] at reached
        exact absurd reached missed
  · rintro ⟨m, a, repeated⟩ s start
    have nonempty : c.bytes ≠ [] := by
      rw [repeated]
      exact List.cons_ne_nil _ _
    refine (searchExact_iff nonempty).mpr fun p last => ?_
    rw [repeated, List.reverse_replicate]
    refine FailedAttempts.of_constant _ le_rfl fun front back whole => ?_
    have whole' := congrArg List.reverse whole
    simp only [List.reverse_append, List.reverse_reverse, List.reverse_replicate] at whole'
    rw [← repeated] at whole'
    -- what stands there instead would be a later occurrence
    have cut : searchedPart s start = (searchedPart s start).take p ++ back.reverse ++ c.bytes ++
        front.reverse := by
      rw [List.append_assoc, List.append_assoc, ← whole', ← List.append_assoc]
      exact last.1.cut
    have later := last.2 _ (occursAt_of_cut cut)
    have inside := last.1.1
    have lengths := congrArg List.length whole
    simp only [List.length_append, List.length_reverse, List.length_take, List.length_drop,
      searchedPart_length] at later lengths ⊢
    omega

end Search

end Vaudou
