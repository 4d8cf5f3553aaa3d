/-
**Cutting a string at its last separator.**

`vd_str_last_of` and `vd_str_last_of_any` return the last place of a byte, or the length of the string;
`vd_str_split` refuses every place that is not inside. The wrappers subtract in `u32`, so a place of 0
becomes one that is refused (`chopRightLastOf_exact_iff`).

* `lastOfAny_place` — the last place of any of some bytes, by one round for each of them.
* `endsWith_exact` — the search from the right is exact at the end of the string.
* `pathLastPart_exact` — what stands behind the last separator.
-/

import Vaudou.Str.Search

namespace Vaudou

open Vaudou.Matching Vaudou.Text

/-- `a - b` at `u32`. -/
def u32Sub (a b : Nat) : Nat := (a + (2 ^ 32 - b)) % 2 ^ 32

/-- The loop of `vd_str_last_of`. -/
def lastOfLoop (s : StrBytes) (c : UInt8) : (i : Nat) → Nat
  | 0 => s.len
  | i + 1 => if s.bytes[i]? = some c then i else lastOfLoop s c i

/-- `vd_str_last_of`. -/
def lastOf (s : StrBytes) (c : UInt8) : Nat := lastOfLoop s c s.len

/-- `vd_str_split`: the bytes up to the one at `place`, and the bytes behind it. -/
def strSplit (s : StrBytes) (place : Nat) : Option (StrBytes × StrBytes) :=
  if s.len < place ∨ s.len ≤ place then none
  else some
    (⟨s.bytes.take (place + 1), (List.length_take_le' _ _).trans_lt s.short⟩,
      ⟨s.bytes.drop (place + 1), (List.drop_sublist _ _).length_le.trans_lt s.short⟩)

/-- `vd_str_ends_with`. `none` is a read outside of a string. -/
def endsWith (s needle : StrBytes) : Option Bool :=
  (lastOfS s needle s.len).map fun place => place == u32Sub s.len needle.len

/-- `vd_str_chop_right`. -/
def chopRight (s : StrBytes) (place : Nat) : StrBytes :=
  match strSplit s place with
  | some (left, _) => left
  | none => s

/-- `vd_str_chop_right_last_of`. -/
def chopRightLastOf (s : StrBytes) (c : UInt8) : StrBytes := chopRight s (u32Sub (lastOf s c) 1)

/-- `vd_str_chop_left`. -/
def chopLeft (s : StrBytes) (place : Nat) : StrBytes :=
  match strSplit s place with
  | some (_, right) => right
  | none => s

/-- The loop of `vd_str_last_of_any`. -/
def lastOfAnyLoop (s : StrBytes) : (array : List UInt8) → (ret : Nat) → Nat
  | [], ret => ret
  | c :: array, ret =>
    let result := lastOf s c
    lastOfAnyLoop s array
      (if result = s.len then ret else if ret < result ∨ ret = s.len then result else ret)

/-- `vd_str_last_of_any`. -/
def lastOfAny (s : StrBytes) (array : List UInt8) : Nat := lastOfAnyLoop s array s.len

/-- `vd_str_path_last_part`. -/
def pathLastPart (s : StrBytes) : StrBytes := chopLeft s (lastOfAny s [charByte '/', charByte '\\'])

/-! ### Last places -/

section Places

variable {α : Type*} {p q : α → Prop} {l front back : List α} {c : α} {r r' : Nat}

/-- **The last place** where the condition holds, or the length of the list if it holds nowhere. -/
structure LastPlace (p : α → Prop) (l : List α) (r : Nat) : Prop where
  here : ∀ c, l[r]? = some c → p c
  inside : r ≤ l.length
  later : ∀ j c, r < j → l[j]? = some c → ¬ p c
  nowhere : r = l.length → ∀ c ∈ l, ¬ p c

theorem LastPlace.of_split (holds : p c) (rest : ∀ d ∈ back, ¬ p d) :
    LastPlace p (front ++ c :: back) front.length where
  here d read := by
    rw [List.getElem?_append_right le_rfl, Nat.sub_self, List.getElem?_cons_zero] at read
    rwa [← Option.some.inj read]
  inside := by simp
  later j d behind read := by
    obtain ⟨k, rfl⟩ := Nat.exists_eq_add_of_lt behind
    rw [List.getElem?_append_right (by omega), show front.length + k + 1 - front.length = k + 1 by omega,
      List.getElem?_cons_succ] at read
    exact rest d (List.mem_of_getElem? read)
  nowhere whole := by simp at whole

theorem LastPlace.of_nowhere (nowhere : ∀ c ∈ l, ¬ p c) : LastPlace p l l.length where
  here c read := by simp at read
  inside := le_rfl
  later j c _ read := nowhere c (List.mem_of_getElem? read)
  nowhere _ := nowhere

/-- The last place is determined. -/
theorem LastPlace.unique (first : LastPlace p l r) (second : LastPlace p l r') : r = r' := by
  have ordered : ∀ {i j : Nat}, LastPlace p l i → LastPlace p l j → ¬ i < j := by
    intro i j one two before
    rcases two.inside.lt_or_eq with proper | whole
    · obtain ⟨c, read⟩ : ∃ c, l[j]? = some c := ⟨l[j], List.getElem?_eq_getElem proper⟩
      exact one.later j c before read (two.here c read)
    · obtain ⟨c, read⟩ : ∃ c, l[i]? = some c := ⟨l[i], List.getElem?_eq_getElem (by omega)⟩
      exact two.nowhere whole c (List.mem_of_getElem? read) (one.here c read)
  exact le_antisymm (not_lt.mp (ordered second first)) (not_lt.mp (ordered first second))

/-- A place inside cuts the list. -/
theorem LastPlace.split (last : LastPlace p l r) (proper : r < l.length) :
    p l[r] ∧ l = l.take r ++ l[r] :: l.drop (r + 1) ∧ ∀ d ∈ l.drop (r + 1), ¬ p d := by
  refine ⟨last.here _ (List.getElem?_eq_getElem proper), ?_, fun d member => ?_⟩
  · rw [← List.drop_eq_getElem_cons proper, List.take_append_drop]
  · obtain ⟨k, read⟩ := List.getElem?_of_mem member
    rw [List.getElem?_drop] at read
    exact last.later _ d (by omega) read

/-- **Two conditions**: the later of their last places, where there are both. -/
theorem LastPlace.or (first : LastPlace p l r) (second : LastPlace q l r') :
    LastPlace (fun c => p c ∨ q c) l
      (if r' = l.length then r else if r < r' ∨ r = l.length then r' else r) := by
  split
  next none =>
    exact ⟨fun c read => Or.inl (first.here c read), first.inside,
      fun j c behind read => not_or.mpr ⟨first.later j c behind read,
        second.nowhere none c (List.mem_of_getElem? read)⟩,
      fun whole c member => not_or.mpr ⟨first.nowhere whole c member, second.nowhere none c member⟩⟩
  next found =>
    split
    next later =>
      refine ⟨fun c read => Or.inr (second.here c read), second.inside, fun j c behind read => ?_,
        fun whole => absurd whole found⟩
      refine not_or.mpr ⟨?_, second.later j c behind read⟩
      rcases later with before | none
      · exact first.later j c (before.trans behind) read
      · exact first.nowhere none c (List.mem_of_getElem? read)
    next earlier =>
      obtain ⟨before, inside⟩ := not_or.mp earlier
      exact ⟨fun c read => Or.inl (first.here c read), first.inside,
        fun j c behind read => not_or.mpr ⟨first.later j c behind read,
          second.later j c ((not_lt.mp before).trans_lt behind) read⟩,
        fun whole => absurd whole inside⟩

theorem LastPlace.congr (last : LastPlace p l r) (same : ∀ c, p c ↔ q c) : LastPlace q l r where
  here c read := (same c).mp (last.here c read)
  inside := last.inside
  later j c behind read holds := last.later j c behind read ((same c).mpr holds)
  nowhere whole c member holds := last.nowhere whole c member ((same c).mpr holds)

end Places

variable {s needle : StrBytes} {c : UInt8} {place : Nat}

section Bytes

/-- The loop has passed everything from `i` on. -/
theorem lastOfLoop_place : ∀ {i : Nat}, i ≤ s.len → (∀ j, i ≤ j → s.bytes[j]? ≠ some c) →
    LastPlace (· = c) s.bytes (lastOfLoop s c i)
  | 0, _, passed => .of_nowhere fun d member same => by
    obtain ⟨j, read⟩ := List.getElem?_of_mem member
    exact passed j (Nat.zero_le j) (by rw [read, same])
  | i + 1, inside, passed => by
    rw [lastOfLoop]
    split
    next here =>
      exact ⟨fun d read => Option.some.inj (read.symm.trans here), Nat.le_of_succ_le inside,
        fun j d behind read same => passed j behind (by rw [read, same]),
        fun whole => absurd whole (Nat.ne_of_lt inside)⟩
    next other =>
      refine lastOfLoop_place (Nat.le_of_succ_le inside) fun j from_ => ?_
      rcases from_.lt_or_eq with later | rfl
      · exact passed j later
      · exact other

/-- **`vd_str_last_of` returns the last place** of the byte. -/
theorem lastOf_place (s : StrBytes) (c : UInt8) : LastPlace (· = c) s.bytes (lastOf s c) :=
  lastOfLoop_place le_rfl fun j outside => by
    rw [List.getElem?_eq_none outside]
    exact (Option.some_ne_none c).symm

/-- The loop has gone through the bytes that `p` names. -/
theorem lastOfAnyLoop_place : ∀ (array : List UInt8) {p : UInt8 → Prop} {ret : Nat},
    LastPlace p s.bytes ret →
      LastPlace (fun d => p d ∨ d ∈ array) s.bytes (lastOfAnyLoop s array ret)
  | [], _, _, last => last.congr fun d => by simp
  | c :: array, _, _, last =>
    (lastOfAnyLoop_place array (last.or (lastOf_place s c))).congr fun d => by
      rw [List.mem_cons, or_assoc]

/-- **`vd_str_last_of_any` returns the last place** of any of the bytes. -/
theorem lastOfAny_place (s : StrBytes) (array : List UInt8) :
    LastPlace (· ∈ array) s.bytes (lastOfAny s array) :=
  (lastOfAnyLoop_place array (p := fun _ => False) (.of_nowhere fun _ _ => not_false)).congr
    fun d => by simp

end Bytes

/-! ### Splitting -/

section Splitting

theorem strSplit_inside (inside : place < s.len) : ∃ left right, strSplit s place = some (left, right) ∧
    left.bytes = s.bytes.take (place + 1) ∧ right.bytes = s.bytes.drop (place + 1) :=
  ⟨_, _, if_neg (by omega), rfl, rfl⟩

theorem strSplit_outside (outside : s.len ≤ place) : strSplit s place = none := if_pos (Or.inr outside)

theorem chopRight_inside (inside : place < s.len) :
    (chopRight s place).bytes = s.bytes.take (place + 1) := by
  obtain ⟨left, right, split, left_eq, -⟩ := strSplit_inside inside
  rw [chopRight, split]
  exact left_eq

theorem chopRight_outside (outside : s.len ≤ place) : chopRight s place = s := by
  rw [chopRight, strSplit_outside outside]

theorem chopLeft_inside (inside : place < s.len) :
    (chopLeft s place).bytes = s.bytes.drop (place + 1) := by
  obtain ⟨left, right, split, -, right_eq⟩ := strSplit_inside inside
  rw [chopLeft, split]
  exact right_eq

theorem chopLeft_outside (outside : s.len ≤ place) : chopLeft s place = s := by
  rw [chopLeft, strSplit_outside outside]

theorem u32Sub_le {a b : Nat} (low : b ≤ a) (small : a < 2 ^ 32) : u32Sub a b = a - b := by
  rw [u32Sub, show a + (2 ^ 32 - b) = a - b + 2 ^ 32 by omega, Nat.add_mod_right,
    Nat.mod_eq_of_lt (by omega)]

/-- A difference that wraps is larger than what it was taken from. -/
theorem u32Sub_wraps {a b : Nat} (high : a < b) (small : b < 2 ^ 32) : a < u32Sub a b := by
  rw [u32Sub, Nat.mod_eq_of_lt (by omega)]
  omega

theorem StrBytes.len_lt (s : StrBytes) : s.len < 2 ^ 32 := s.short

theorem StrBytes.eq_of_bytes {s t : StrBytes} (same : s.bytes = t.bytes) : s = t := by
  cases s
  cases t
  cases same
  rfl

end Splitting

/-! ### The end of a string -/

/-- The needle stands at the place that is left for it exactly if it is a suffix. -/
theorem suffix_iff_occursAt (shorter : needle.len ≤ s.len) :
    needle.bytes <:+ s.bytes ↔ OccursAt s needle s.len (s.len - needle.len) := by
  have lengths : (s.bytes.drop (s.len - needle.len)).length = needle.len := by
    rw [List.length_drop]
    show s.len - (s.len - needle.len) = needle.len
    omega
  rw [OccursAt, min_self, List.take_of_length_le lengths.le]
  constructor
  · rintro ⟨front, whole⟩
    have total := congrArg List.length whole
    rw [List.length_append] at total
    have place : s.len - needle.len = front.length := by
      show s.bytes.length - needle.bytes.length = _
      omega
    exact ⟨by omega, by rw [place, ← whole, List.drop_left]⟩
  · rintro ⟨-, stands⟩
    exact ⟨s.bytes.take (s.len - needle.len), by rw [← stands, List.take_append_drop]⟩

/-- Nothing stands behind a suffix, so the search finds it. -/
theorem lastOfS_suffix (nonempty : needle.bytes ≠ []) (suffix : needle.bytes <:+ s.bytes) :
    lastOfS s needle s.len = some (s.len - needle.len) := by
  have shorter : needle.len ≤ s.len := suffix.length_le
  have here := (suffix_iff_occursAt shorter).mp suffix
  have behind : (searchedPart s s.len).drop (s.len - needle.len + needle.len) = [] :=
    List.drop_eq_nil_of_le (by rw [searchedPart_length, min_self]; omega)
  have found := (here.found_iff nonempty).mpr (by rw [behind]; exact .nil)
  rw [lastOfS_eq s s.len nonempty, found, Option.getD_some]

/-- **The suffix test is exact**, whatever the search misses elsewhere. -/
theorem endsWith_exact (s needle : StrBytes) (nonempty : needle.bytes ≠ []) :
    ∃ result, endsWith s needle = some result ∧ (result = true ↔ needle.bytes <:+ s.bytes) := by
  have pos : 0 < needle.len := List.length_pos_iff.mpr nonempty
  obtain ⟨place, ran⟩ : ∃ place, lastOfS s needle s.len = some place := ⟨_, lastOfS_eq s s.len nonempty⟩
  refine ⟨_, by rw [endsWith, ran, Option.map_some], ?_⟩
  rw [beq_iff_eq]
  constructor
  · intro same
    have found := lastOfS_sound ran
    have bound : place ≤ s.len := by
      rcases found with whole | here
      · exact whole.le
      · have inside := here.1
        omega
    by_cases shorter : needle.len ≤ s.len
    · rw [u32Sub_le shorter s.len_lt] at same
      rw [suffix_iff_occursAt shorter, ← same]
      exact found.resolve_left (by omega)
    · have wraps := u32Sub_wraps (not_le.mp shorter) needle.len_lt
      omega
  · intro suffix
    have shorter : needle.len ≤ s.len := suffix.length_le
    rw [Option.some.inj (ran.symm.trans (lastOfS_suffix nonempty suffix)), u32Sub_le shorter s.len_lt]

/-- A name that ends with the extension, and one that is shorter. -/
theorem endsWith_exact_extension :
    (∃ result, endsWith ⟨ascii "a.lua", by decide⟩ ⟨ascii ".lua", by decide⟩ = some result ∧
      (result = true ↔ ascii ".lua" <:+ ascii "a.lua")) ∧
    ∃ result, endsWith ⟨ascii "lua", by decide⟩ ⟨ascii ".lua", by decide⟩ = some result ∧
      (result = true ↔ ascii ".lua" <:+ ascii "lua") :=
  ⟨endsWith_exact _ ⟨ascii ".lua", by decide⟩ (by decide),
    endsWith_exact _ ⟨ascii ".lua", by decide⟩ (by decide)⟩

/-! ### The last separator -/

/-- **The right result** of chopping at the last occurrence: what stands before it, or the whole string. -/
structure ChopExact (s : StrBytes) (c : UInt8) : Prop where
  found : ∀ front back, s.bytes = front ++ c :: back → c ∉ back → (chopRightLastOf s c).bytes = front
  absent : c ∉ s.bytes → chopRightLastOf s c = s

/-- The place of the byte, where the bytes are split at it. -/
theorem lastOf_split {front back : List UInt8} (whole : s.bytes = front ++ c :: back)
    (last : c ∉ back) : lastOf s c = front.length := by
  have place := lastOf_place s c
  rw [whole] at place
  exact place.unique (.of_split rfl fun d member same => last (same ▸ member))

theorem lastOf_absent (absent : c ∉ s.bytes) : lastOf s c = s.len :=
  (lastOf_place s c).unique (.of_nowhere fun _ member same => absent (same ▸ member))

/-- Where the byte is absent, the place in front of the end keeps the whole string. -/
theorem chopRightLastOf_absent (absent : c ∉ s.bytes) : chopRightLastOf s c = s := by
  rw [chopRightLastOf, lastOf_absent absent]
  rcases Nat.eq_zero_or_pos s.len with empty | pos
  · exact chopRight_outside (by rw [empty]; exact Nat.zero_le _)
  · have place : u32Sub s.len 1 = s.len - 1 := u32Sub_le pos s.len_lt
    refine StrBytes.eq_of_bytes ?_
    rw [place, chopRight_inside (by omega), Nat.sub_add_cancel pos, StrBytes.len, List.take_length]

/-- The string is cut in front of the last occurrence, unless that is the first byte. -/
theorem chopRightLastOf_found {front back : List UInt8} (whole : s.bytes = front ++ c :: back)
    (last : c ∉ back) :
    (chopRightLastOf s c).bytes = if front = [] then s.bytes else front := by
  have length : s.len = front.length + (back.length + 1) := by
    rw [StrBytes.len, whole, List.length_append, List.length_cons]
  have small := s.len_lt
  rw [chopRightLastOf, lastOf_split whole last]
  split
  next empty =>
    have top : u32Sub front.length 1 = 2 ^ 32 - 1 := by
      rw [empty]
      decide
    rw [chopRight_outside (by omega)]
  next nonempty =>
    have pos := List.length_pos_iff.mpr nonempty
    have place : u32Sub front.length 1 = front.length - 1 := u32Sub_le pos (by omega)
    rw [chopRight_inside (by omega), place, Nat.sub_add_cancel pos, whole, List.take_left]

/-- **Chopping is exact** exactly if the only occurrence is not the first byte: there the place in front
wraps around, and nothing is chopped. -/
theorem chopRightLastOf_exact_iff (s : StrBytes) (c : UInt8) :
    ChopExact s c ↔ ¬ ∃ back, s.bytes = c :: back ∧ c ∉ back := by
  constructor
  · rintro exact_ ⟨back, whole, last⟩
    have whole' : s.bytes = [] ++ c :: back := whole
    have empty := exact_.found [] back whole last
    rw [chopRightLastOf_found whole' last, if_pos rfl, whole] at empty
    cases empty
  · refine fun later => ⟨fun front back whole last => ?_, chopRightLastOf_absent⟩
    rw [chopRightLastOf_found whole last, if_neg]
    rintro rfl
    exact later ⟨back, whole, last⟩

/-- **A path in the root directory** is not chopped. -/
theorem leading_separator_kept : ¬ ∀ (s : StrBytes) (c : UInt8), ChopExact s c := by
  intro claimed
  have chopped := (claimed ⟨ascii "/a", by decide⟩ (charByte '/')).found [] (ascii "a") rfl (by decide)
  revert chopped
  decide

/-- A slash or a backslash. -/
def IsSeparator (c : UInt8) : Prop := c ∈ [charByte '/', charByte '\\']

/-- **The last part of a path**: what stands behind the last separator, or the whole path. -/
theorem pathLastPart_exact (s : StrBytes) :
    (∀ front sep back, s.bytes = front ++ sep :: back → IsSeparator sep →
      (∀ d ∈ back, ¬ IsSeparator d) → (pathLastPart s).bytes = back) ∧
    ((∀ d ∈ s.bytes, ¬ IsSeparator d) → pathLastPart s = s) ∧
    (pathLastPart s = s ∨ ∃ front sep, IsSeparator sep ∧
      s.bytes = front ++ [sep] ++ (pathLastPart s).bytes) ∧
    ∀ d ∈ (pathLastPart s).bytes, ¬ IsSeparator d := by
  have place : LastPlace IsSeparator s.bytes (lastOfAny s [charByte '/', charByte '\\']) :=
    lastOfAny_place s _
  have behind : ∀ front sep back, s.bytes = front ++ sep :: back → IsSeparator sep →
      (∀ d ∈ back, ¬ IsSeparator d) → (pathLastPart s).bytes = back := by
    intro front sep back whole separates last
    have length : front.length < s.len := by
      rw [StrBytes.len, whole, List.length_append, List.length_cons]
      omega
    have here : LastPlace IsSeparator s.bytes front.length := by
      rw [whole]
      exact .of_split separates last
    rw [pathLastPart, place.unique here, chopLeft_inside length, whole, ← List.singleton_append,
      ← List.append_assoc, List.drop_left' (by simp)]
  have nowhere : (∀ d ∈ s.bytes, ¬ IsSeparator d) → pathLastPart s = s := by
    intro none
    rw [pathLastPart, place.unique (.of_nowhere none)]
    exact chopLeft_outside le_rfl
  rcases place.inside.lt_or_eq with proper | whole
  · obtain ⟨separates, split, last⟩ := place.split proper
    have bytes := behind _ _ _ split separates last
    exact ⟨behind, nowhere, Or.inr ⟨_, _, separates, by rw [bytes, List.append_assoc]; exact split⟩,
      fun d member => last d (bytes ▸ member)⟩
  · have none := place.nowhere whole
    exact ⟨behind, nowhere, Or.inl (nowhere none), fun d member => none d (nowhere none ▸ member)⟩

/-- The path of the test with both separators. -/
example : (pathLastPart ⟨ascii "C:/Users\\User/Desktop\\file.txt", by decide +kernel⟩).bytes =
    ascii "file.txt" := by decide +kernel

end Vaudou
