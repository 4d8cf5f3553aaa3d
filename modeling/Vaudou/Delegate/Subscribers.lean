/-
**A hook is a multiset of subscribers, as long as nothing unsubscribes its first entry.**

`SubscribersStep` says what the operations of a hook are for: subscribing adds an entry, unsubscribing
takes one entry of the function away, and an invocation calls every entry once. The macros do the same
(`hookStep_simulates`) except where `VD_HOOK_UNSUBSCRIBE` takes the index that it found for a truth
value: at index 0 it removes nothing (`hookUnsubscribe_first`), and at -1, which stands for a function
that is not there, it removes an entry all the same (`hookUnsubscribe_absent`).

* `hookRun_subscribers` — a run from a new hook is one of the multiset if and only if every
  unsubscribe finds its function, and not at index 0.
-/

import Mathlib.Data.Multiset.MapFold
import Vaudou.Array.Refinement
import Vaudou.Delegate.HookList

namespace Vaudou

open Vaudou.Memory Vaudou.Run

/-! ### Subscribers -/

/-- The subscribers of a hook, and whom each invocation called so far. -/
structure Subscribers (Args : Type) where
  entries : Multiset HookEntry
  calls : List (Multiset (HookCall Args))

/-- **What an operation is for.** Of several entries of a function, any one may be removed. -/
inductive SubscribersStep {Args : Type} : Subscribers Args → HookOp Args → Subscribers Args → Prop
  | subscribe {m : Subscribers Args} {fptr usrdata : UInt64} :
    SubscribersStep m (.subscribe fptr usrdata) ⟨⟨fptr.toNat, usrdata.toNat⟩ ::ₘ m.entries, m.calls⟩
  | unsubscribe {m : Subscribers Args} {fptr : UInt64} {entry : HookEntry} {rest : Multiset HookEntry} :
    m.entries = entry ::ₘ rest → entry.func = fptr.toNat →
    SubscribersStep m (.unsubscribe fptr) ⟨rest, m.calls⟩
  | absent {m : Subscribers Args} {fptr : UInt64} :
    (∀ entry ∈ m.entries, entry.func ≠ fptr.toNat) → SubscribersStep m (.unsubscribe fptr) m
  | invoke {m : Subscribers Args} {args : Args} :
    SubscribersStep m (.invoke args) ⟨m.entries, m.calls ++ [m.entries.map fun entry => ⟨entry, args⟩]⟩

/-- An unsubscribe removes one entry if there is one of its function. -/
theorem SubscribersStep.card_unsubscribe {Args : Type} {m m' : Subscribers Args} {fptr : UInt64}
    (step : SubscribersStep m (.unsubscribe fptr) m') :
    ((∃ entry ∈ m.entries, entry.func = fptr.toNat) ∧ m.entries.card = m'.entries.card + 1) ∨
      ((∀ entry ∈ m.entries, entry.func ≠ fptr.toNat) ∧ m.entries.card = m'.entries.card) := by
  cases step with
  | unsubscribe split func =>
    refine Or.inl ⟨⟨_, ?_, func⟩, ?_⟩
    · rw [split]
      exact Multiset.mem_cons_self _ _
    · rw [split, Multiset.card_cons]
  | absent none => exact Or.inr ⟨none, rfl⟩

/-- The entry that bytes denote. -/
def HookEntry.ofBytes (bytes : List UInt8) : HookEntry :=
    ⟨leValue (bytes.take 8), leValue (bytes.drop 8)⟩

section Abstraction

variable (E : ArrayEnv) {Args : Type}

/-- The entries of the list, as many as the header says. -/
def hookEntries (s : ArrayState) : List HookEntry :=
  (List.range (s.mem.readNat (s.a - arrayHeaderSize) 8)).map fun i =>
    .ofBytes (s.mem.load (s.item E i) E.tsize)

/-- The subscribers that a hook stands for. -/
def HookState.subscribers (s : HookState Args) : Subscribers Args :=
  ⟨hookEntries E s.list, s.calls.map Multiset.ofList⟩

/-- The operation does to the hook what it does to the subscribers. -/
def HookSimulates (s : HookState Args) (op : HookOp Args) : Prop :=
  ∃ s', hookStep E s op = some s' ∧ SubscribersStep (s.subscribers E) op (s'.subscribers E)

/-- An unsubscribe finds its function, and not at index 0. -/
def HookOp.FoundBehind (s : HookState Args) : HookOp Args → Prop
  | .unsubscribe fptr =>
    ∃ i, 0 < i ∧ (hookEntries E s.list).findIdx? (fun entry => entry.func == fptr.toNat) = some i
  | .subscribe _ _ | .invoke _ => True

end Abstraction

/-! ### The list of a hook -/

section Lists

variable {E : ArrayEnv} {s : ArrayState} {entries : List HookEntry}

/-- **The array holds the entries.** -/
def ArrayState.HoldsEntries (E : ArrayEnv) (s : ArrayState) (entries : List HookEntry) : Prop :=
  ∃ items cap, s.Holds E ⟨items, []⟩ cap ∧ items.map HookEntry.ofBytes = entries

theorem ArrayState.HoldsEntries.len_eq (holds : s.HoldsEntries E entries) :
    arrayLen s = some entries.length := by
  obtain ⟨items, cap, held, rfl⟩ := holds
  rw [held.len_eq, List.length_map]

/-- An entry is one element. -/
theorem ArrayState.HoldsEntries.load_entry (holds : s.HoldsEntries E entries) {i : Nat}
    (inside : i < entries.length) :
    HookEntry.ofBytes (s.mem.load (s.item E i) E.tsize) = entries[i] := by
  obtain ⟨items, cap, held, rfl⟩ := holds
  rw [List.length_map] at inside
  have part := held.load_range (Nat.le_add_right i 1) (show i + 1 ≤ items.length from inside)
  have one : (items.take (i + 1)).drop i = [items[i]] := by
    rw [List.take_add_one, List.getElem?_eq_getElem inside, Option.toList_some,
      List.drop_append_of_le_length (by rw [List.length_take]; omega), List.drop_take_self,
      List.nil_append]
  rw [one, List.flatten_singleton, Nat.add_sub_cancel_left, Nat.mul_one] at part
  rw [part, List.getElem_map]

/-- **What the memory spells** are the entries. -/
theorem ArrayState.HoldsEntries.entries_eq (holds : s.HoldsEntries E entries) :
    hookEntries E s = entries := by
  have count : s.mem.readNat (s.a - arrayHeaderSize) 8 = entries.length := by
    obtain ⟨items, cap, held, rfl⟩ := holds
    rw [held.base, arrayHeaderSize, Nat.add_sub_cancel, held.length, List.length_map]
  refine List.ext_getElem ?_ fun i _ inside => ?_
  · rw [hookEntries, List.length_map, List.length_range, count]
  · rw [← holds.load_entry inside]
    simp only [hookEntries, List.getElem_map, List.getElem_range]

/-- The two fields of an entry are read. -/
theorem ArrayState.HoldsEntries.fields (tsize : E.tsize = 16) (holds : s.HoldsEntries E entries)
    {i : Nat}
    (inside : i < entries.length) :
    hookFunc E s i = some entries[i].func ∧ hookUsrdata E s i = some entries[i].usrdata := by
  have entry := holds.load_entry inside
  obtain ⟨items, cap, held, rfl⟩ := holds
  rw [List.length_map] at inside
  have room := held.room
  have block := held.inBlock (show i + 1 ≤ cap from le_trans inside room)
  rw [tsize] at block entry
  have split : s.mem.load (s.item E i) 16 =
      s.mem.load (s.item E i) 8 ++ s.mem.load (s.item E i + 8) 8 := load_append (n := 8) (k := 8)
  rw [split, HookEntry.ofBytes, List.take_left' load_length, List.drop_left' load_length] at entry
  have low : s.InBlock (s.item E i) 8 := ⟨block.1, by have := block.2; omega⟩
  have high : s.InBlock (s.item E i + 8) 8 := ⟨by have := block.1; omega, by have := block.2; omega⟩
  rw [← entry]
  constructor
  · rw [hookFunc, ArrayState.read, if_pos low]
    rfl
  · rw [hookUsrdata, ArrayState.read, if_pos high]
    rfl

/-- **The loop of `VD_HOOK_UNSUBSCRIBE`** finds the first entry of the function. -/
theorem hookFind_eq (tsize : E.tsize = 16) (holds : s.HoldsEntries E entries)
    (small : entries.length < 2 ^ 31) (fptr : Nat) : ∀ left i : Nat, i + left = entries.length →
      hookFind E s fptr i left = some
        (((entries.drop i).findIdx? fun entry => entry.func == fptr).elim (-1)
          fun k => ((i + k : Nat) : Int))
  | 0, i, count => by
    rw [List.drop_eq_nil_of_le (by omega)]
    rfl
  | left + 1, i, count => by
    have inside : i < entries.length := by omega
    rw [hookFind, (holds.fields tsize inside).1, Option.bind_some, List.drop_eq_getElem_cons inside,
      List.findIdx?_cons]
    by_cases here : entries[i].func = fptr
    · rw [if_pos here, if_pos (beq_iff_eq.mpr here)]
      rfl
    · have later := hookFind_eq tsize holds small fptr left (i + 1) (by omega)
      rw [if_neg here, if_neg (fun same => here (beq_iff_eq.mp same)), intSucc, if_pos (by omega),
        Option.bind_some, later]
      cases (entries.drop (i + 1)).findIdx? fun entry => entry.func == fptr with
      | none => rfl
      | some k =>
        show some ((i + 1 + k : Nat) : Int) = some ((i + (k + 1) : Nat) : Int)
        rw [Nat.add_right_comm, Nat.add_assoc]

/-- **The loop of `VD_HOOK_INVOKE`** calls the entries in order. -/
theorem hookCalled_eq (tsize : E.tsize = 16) (holds : s.HoldsEntries E entries)
    (small : entries.length < 2 ^ 31) : ∀ left i : Nat, i + left = entries.length →
      hookCalled E s i left = some (entries.drop i)
  | 0, i, count => by
    rw [List.drop_eq_nil_of_le (by omega)]
    rfl
  | left + 1, i, count => by
    have inside : i < entries.length := by omega
    obtain ⟨func, usrdata⟩ := holds.fields tsize inside
    have later := hookCalled_eq tsize holds small left (i + 1) (by omega)
    rw [hookCalled, func, Option.bind_some, usrdata, Option.bind_some, intSucc, if_pos (by omega),
      Option.bind_some, later, Option.map_some, List.drop_eq_getElem_cons inside]

/-- Bytes written one behind the other, from an element on. -/
theorem ArrayState.write_append (s : ArrayState) (i : Nat) (first second : List UInt8) :
    ((s.write (s.item E i) first).bind fun t => t.write (t.item E i + first.length) second) =
      s.write (s.item E i) (first ++ second) := by
  by_cases inside : s.InBlock (s.item E i) (first ++ second).length
  · have low := inside.1
    have high := inside.2
    rw [List.length_append] at high
    have inFirst : s.InBlock (s.item E i) first.length := ⟨low, by omega⟩
    have inSecond : ArrayState.InBlock { s with mem := s.mem.store (s.item E i) first }
        (s.item E i + first.length) second.length :=
      ⟨show s.block.1 ≤ s.item E i + first.length by omega,
        show s.item E i + first.length + second.length ≤ s.block.1 + s.block.2 by omega⟩
    have whole : s.write (s.item E i) (first ++ second) =
        some { s with mem := (s.mem.store (s.item E i) first).store (s.item E i + first.length) second } := by
      rw [ArrayState.write, if_pos inside, store_append]
    rw [whole, ArrayState.write, if_pos inFirst, Option.bind_some]
    exact if_pos inSecond
  · have whole : s.write (s.item E i) (first ++ second) = none := if_neg inside
    rw [whole, ArrayState.write]
    by_cases inFirst : s.InBlock (s.item E i) first.length
    · rw [if_pos inFirst, Option.bind_some]
      refine if_neg fun inSecond => inside ⟨inFirst.1, ?_⟩
      have high : s.item E i + first.length + second.length ≤ s.block.1 + s.block.2 := inSecond.2
      rw [List.length_append]
      omega
    · rw [if_neg inFirst, Option.bind_none]

/-- The bytes of an entry denote it. -/
theorem HookEntry.ofBytes_fields (func usrdata : UInt64) :
    HookEntry.ofBytes (leBytes 8 func.toNat ++ leBytes 8 usrdata.toNat) =
      ⟨func.toNat, usrdata.toNat⟩ := by
  have fits : ∀ value : UInt64, value.toNat % 256 ^ 8 = value.toNat := fun value =>
    Nat.mod_eq_of_lt value.toNat_lt
  rw [HookEntry.ofBytes, List.take_left' (leBytes_length 8 _), List.drop_left' (leBytes_length 8 _),
    leValue_leBytes, leValue_leBytes, fits, fits]

/-- **`VD_HOOK_SUBSCRIBE`** appends an entry. -/
theorem hookSubscribe_holds {limit : Nat} (valid : E.Valid) (grants : E.Grants limit)
    (tsize : E.tsize = 16) (holds : s.HoldsEntries E entries)
    (fits : E.tsize * (2 * (entries.length + 1) + 4) + 24 ≤ limit) (small : entries.length < 2 ^ 32)
    (fptr usrdata : UInt64) :
    ∃ s', hookSubscribe E s fptr.toNat usrdata.toNat = some s' ∧
      s'.HoldsEntries E (entries ++ [⟨fptr.toNat, usrdata.toNat⟩]) := by
  let bytes := leBytes 8 fptr.toNat ++ leBytes 8 usrdata.toNat
  obtain ⟨items, cap, held, rfl⟩ := holds
  rw [List.length_map] at fits small
  have size : ∀ v ∈ [bytes], v.length = E.tsize := fun v member => by
    rw [List.mem_singleton.mp member, List.length_append, leBytes_length, leBytes_length, tsize]
  obtain ⟨s₁, cap₁, grown, held₁, -⟩ := arrayCheckGrow_holds valid grants held fits
  obtain ⟨s', cap', added, held'⟩ := arrayAddn_holds valid grants held size fits
  refine ⟨s', ?_, items ++ [bytes], cap', held', ?_⟩
  · rw [← arrayAdd_eq, arrayAdd, grown, Option.bind_some, held₁.len_eq, Option.bind_some] at added
    rw [hookSubscribe, held.len_eq, Option.bind_some, arrayPush, grown, Option.bind_some, held₁.len_eq,
      Option.bind_some, Nat.mod_eq_of_lt small, ← added]
    show (arraySetLen s₁ (items.length + 1)).bind _ = (arraySetLen s₁ (items.length + 1)).bind _
    refine congrArg _ (funext fun t => ?_)
    have both := t.write_append (E := E) items.length (leBytes 8 fptr.toNat) (leBytes 8 usrdata.toNat)
    rwa [leBytes_length] at both
  · rw [List.map_append, List.map_singleton, HookEntry.ofBytes_fields]

/-- **The last element in the place of another one**: the list without that one, in another order. -/
theorem delswap_perm {α : Type} {l : List α} {i : Nat} {last : α} (inside : i < l.length)
    (isLast : l.getLast? = some last) : (l[i] :: (l.set i last).dropLast).Perm l := by
  obtain ⟨front, rfl⟩ := List.getLast?_eq_some_iff.mp isLast
  by_cases inFront : i < front.length
  · have split : front = front.take i ++ front[i] :: front.drop (i + 1) := by
      rw [← List.drop_eq_getElem_cons inFront, List.take_append_drop]
    rw [List.getElem_append_left inFront, List.set_append_left _ _ inFront, List.dropLast_concat,
      List.set_eq_take_append_cons_drop, if_pos inFront]
    have out : (front[i] :: (front.take i ++ last :: front.drop (i + 1))).Perm
        (last :: front[i] :: (front.take i ++ front.drop (i + 1))) :=
      (List.perm_middle.cons _).trans (List.Perm.swap _ _ _)
    have back : (front[i] :: (front.take i ++ front.drop (i + 1))).Perm front := by
      conv_rhs => rw [split]
      exact List.perm_middle.symm
    exact out.trans ((back.cons last).trans (List.perm_append_singleton last front).symm)
  · have behind : i = front.length := by
      rw [List.length_append, List.length_singleton] at inside
      omega
    subst behind
    rw [List.getElem_concat_length rfl, List.set_append_right _ _ le_rfl, Nat.sub_self,
      List.set_cons_zero,
      List.dropLast_concat]
    exact (List.perm_append_singleton last front).symm

/-- An index within the array does not wrap. -/
theorem ArrayState.Holds.itemAt_eq {l : Listing} {cap : Nat} (holds : s.Holds E l cap) {i : Nat}
    (inside : i < cap) : s.itemAt E i = s.item E i := by
  have high := (holds.inBlock (show i + 1 ≤ cap from inside)).2
  have bounded := holds.bounded
  rw [Nat.mul_one, ArrayState.item] at high
  rw [ArrayState.itemAt, ArrayState.item]
  have plain : ((s.a : Int) + E.tsize * i) % 2 ^ 64 = ((s.a + E.tsize * i : Nat) : Int) := by
    rw [← Nat.cast_mul, ← Nat.cast_add]
    exact Int.emod_eq_of_lt (Int.natCast_nonneg _) (by omega)
  rw [plain, Int.toNat_natCast]

/-- At an index within the array, the element is removed. -/
theorem arrayDelswapAt_eq {l : Listing} {cap : Nat} (valid : E.Valid) (holds : s.Holds E l cap) {i : Nat}
    (inside : i < l.items.length) : arrayDelswapAt E s i = arrayDelswap E s i := by
  have room := holds.room
  have small := holds.cap_lt valid
  have back : (l.items.length : Int) - 1 = ((l.items.length - 1 : Nat) : Int) := by omega
  rw [arrayDelswapAt, arrayDelswap, holds.len_eq, Option.bind_some, Option.bind_some, back,
    holds.itemAt_eq (show l.items.length - 1 < cap by omega), holds.itemAt_eq (show i < cap by omega),
    show (l.items.length + (2 ^ 64 - 1)) % 2 ^ 64 = l.items.length - 1 by omega]

/-- **`VD_HOOK_UNSUBSCRIBE` of an entry behind the first one** removes it. -/
theorem hookUnsubscribe_behind (valid : E.Valid) (tsize : E.tsize = 16)
    (holds : s.HoldsEntries E entries)
    (small : entries.length < 2 ^ 31) {fptr i : Nat} (pos : 0 < i)
    (found : (entries.findIdx? fun entry => entry.func == fptr) = some i) :
    ∃ s' entry rest, hookUnsubscribe E s fptr = some s' ∧ s'.HoldsEntries E rest ∧
      (entry :: rest).Perm entries ∧ entry.func = fptr := by
  obtain ⟨inside, match_, -⟩ := List.findIdx?_eq_some_iff_getElem.mp found
  have searched := hookFind_eq tsize holds small fptr entries.length 0 (Nat.zero_add _)
  rw [List.drop_zero, found, Option.elim_some, Nat.zero_add] at searched
  have swapped : hookUnsubscribe E s fptr = arrayDelswapAt E s i := by
    rw [hookUnsubscribe, holds.len_eq, Option.bind_some, searched, Option.bind_some, if_pos (by omega)]
  obtain ⟨items, cap, held, rfl⟩ := holds
  have count : (items.map HookEntry.ofBytes).length = items.length := List.length_map _
  have inItems : i < items.length := count ▸ inside
  obtain ⟨last, isLast⟩ : ∃ last, items.getLast? = some last :=
    ⟨_, List.getLast?_eq_some_getLast (List.ne_nil_of_length_pos (by omega))⟩
  obtain ⟨s', removed, held'⟩ := arrayDelswap_holds valid held inItems isLast
  refine ⟨s', _, _, ?_, ⟨_, cap, held', rfl⟩, ?_, beq_iff_eq.mp match_⟩
  · rw [swapped, arrayDelswapAt_eq valid held inItems, removed]
  · have shuffled := (delswap_perm inItems isLast).map HookEntry.ofBytes
    rwa [List.map_cons, ← List.getElem_map HookEntry.ofBytes (h := inside)] at shuffled

/-- **`VD_HOOK_UNSUBSCRIBE` of the first entry** removes nothing. -/
theorem hookUnsubscribe_first (tsize : E.tsize = 16) (holds : s.HoldsEntries E entries)
    (small : entries.length < 2 ^ 31) {fptr : Nat}
    (found : (entries.findIdx? fun entry => entry.func == fptr) = some 0) :
    hookUnsubscribe E s fptr = some s := by
  have searched := hookFind_eq tsize holds small fptr entries.length 0 (Nat.zero_add _)
  rw [List.drop_zero, found, Option.elim_some] at searched
  rw [hookUnsubscribe, holds.len_eq, Option.bind_some, searched, Option.bind_some]
  exact if_neg (not_not.mpr rfl)

/-- **`VD_HOOK_UNSUBSCRIBE` of a function that is not there** takes one off the length. -/
theorem hookUnsubscribe_absent (tsize : E.tsize = 16) (holds : s.HoldsEntries E entries)
    (small : entries.length < 2 ^ 31) {fptr : Nat} {s' : ArrayState}
    (absent : (entries.findIdx? fun entry => entry.func == fptr) = none)
    (step : hookUnsubscribe E s fptr = some s') :
    (hookEntries E s').length = (entries.length + (2 ^ 64 - 1)) % 2 ^ 64 := by
  have searched := hookFind_eq tsize holds small fptr entries.length 0 (Nat.zero_add _)
  rw [List.drop_zero, absent, Option.elim_none] at searched
  rw [hookUnsubscribe, holds.len_eq, Option.bind_some, searched, Option.bind_some,
    if_pos (show (-1 : Int) ≠ 0 by decide), arrayDelswapAt, holds.len_eq, Option.bind_some] at step
  obtain ⟨last, -, step⟩ := Option.bind_eq_some_iff.mp step
  obtain ⟨t, -, set⟩ := Option.bind_eq_some_iff.mp step
  obtain ⟨-, written⟩ := Option.ite_none_right_eq_some.mp set
  cases written
  rw [hookEntries, List.length_map, List.length_range]
  exact readNat_writeNat_lt (Nat.mod_lt _ (by norm_num))

end Lists

/-! ### Steps -/

section Steps

variable {E : ArrayEnv} {Args : Type} {s s' : HookState Args} {entries : List HookEntry}
    {op : HookOp Args}

/-- How many entries an operation adds at most. -/
def HookOp.adds : HookOp Args → Nat
  | .subscribe _ _ => 1
  | .unsubscribe _ | .invoke _ => 0

theorem HookState.entries_eq (holds : s.list.HoldsEntries E entries) :
    (s.subscribers E).entries = entries := by
  rw [HookState.subscribers, holds.entries_eq]

/-- **One operation.** If an unsubscribe finds its function behind the first entry, the hook does what
its subscribers do. -/
theorem hookStep_simulates {limit : Nat} (valid : E.Valid) (grants : E.Grants limit)
    (tsize : E.tsize = 16) (holds : s.list.HoldsEntries E entries)
    (fits : E.tsize * (2 * (entries.length + op.adds) + 4) + 24 ≤ limit)
    (small : entries.length + op.adds < 2 ^ 31) (behind : op.FoundBehind E s) :
    ∃ s' entries', hookStep E s op = some s' ∧ s'.list.HoldsEntries E entries' ∧
      entries'.length ≤ entries.length + op.adds ∧
      SubscribersStep (s.subscribers E) op (s'.subscribers E) := by
  have before : s.subscribers E = ⟨entries, s.calls.map Multiset.ofList⟩ := by
    rw [HookState.subscribers, holds.entries_eq]
  cases op with
  | subscribe fptr usrdata =>
    obtain ⟨list, subscribed, holds'⟩ := hookSubscribe_holds valid grants tsize holds fits
      (lt_of_le_of_lt (Nat.le_add_right _ 1) (small.trans (by norm_num))) fptr usrdata
    have after : HookState.subscribers E { s with list := list } =
        ⟨⟨fptr.toNat, usrdata.toNat⟩ ::ₘ entries, s.calls.map Multiset.ofList⟩ := by
      rw [HookState.subscribers, holds'.entries_eq, Multiset.cons_coe]
      exact congrArg (Subscribers.mk · _) (Multiset.coe_eq_coe.mpr (List.perm_append_singleton _ _))
    refine ⟨{ s with list := list }, _, by rw [hookStep, subscribed]; rfl, holds',
      List.length_append.le, ?_⟩
    rw [before, after]
    exact .subscribe
  | unsubscribe fptr =>
    obtain ⟨i, pos, found⟩ := behind
    rw [holds.entries_eq] at found
    obtain ⟨list, entry, rest, unsubscribed, holds', shuffled, func⟩ :=
      hookUnsubscribe_behind valid tsize holds (lt_of_le_of_lt (Nat.le_add_right _ _) small) pos found
    have after : HookState.subscribers E { s with list := list } =
        ⟨rest, s.calls.map Multiset.ofList⟩ := by
      rw [HookState.subscribers, holds'.entries_eq]
    refine ⟨{ s with list := list }, rest, by rw [hookStep, unsubscribed]; rfl, holds', ?_, ?_⟩
    · have count := shuffled.length_eq
      rw [List.length_cons] at count
      omega
    · rw [before, after]
      exact .unsubscribe (Multiset.coe_eq_coe.mpr shuffled.symm) func
  | invoke args =>
    have called := hookCalled_eq tsize holds small entries.length 0 (Nat.zero_add _)
    have after : HookState.subscribers E { s with calls := s.calls ++ [hookInvoke entries args] } =
        ⟨entries, s.calls.map Multiset.ofList ++ [(entries : Multiset HookEntry).map
          fun entry => ⟨entry, args⟩]⟩ := by
      rw [HookState.subscribers, holds.entries_eq, List.map_append, Multiset.map_coe]
      rfl
    refine ⟨{ s with calls := s.calls ++ [hookInvoke entries args] }, entries, ?_, holds,
      Nat.le_refl _, ?_⟩
    · rw [hookStep, holds.len_eq, Option.bind_some, called, Option.map_some, List.drop_zero]
    · rw [before, after]
      exact .invoke

/-- **Any other unsubscribe** does not do what the subscribers do. -/
theorem hookStep_strays (tsize : E.tsize = 16) (holds : s.list.HoldsEntries E entries)
    (small : entries.length < 2 ^ 31) (stray : ¬ op.FoundBehind E s) : ¬ HookSimulates E s op := by
  have before := HookState.entries_eq holds
  cases op with
  | subscribe fptr usrdata => exact absurd trivial stray
  | invoke args => exact absurd trivial stray
  | unsubscribe fptr =>
    rintro ⟨s', step, simulated⟩
    obtain ⟨list, unsubscribed, rfl⟩ := Option.map_eq_some_iff.mp step
    have outcome := simulated.card_unsubscribe
    rw [before, Multiset.coe_card] at outcome
    cases found : entries.findIdx? fun entry => entry.func == fptr.toNat with
    | none =>
      have shorter := hookUnsubscribe_absent tsize holds small found unsubscribed
      have after : (HookState.subscribers E { s with list := list }).entries.card =
          (entries.length + (2 ^ 64 - 1)) % 2 ^ 64 := shorter
      rw [after] at outcome
      rcases outcome with ⟨⟨entry, member, func⟩, -⟩ | ⟨-, count⟩
      · have other := List.findIdx?_eq_none_iff.mp found entry (Multiset.mem_coe.mp member)
        rw [func, beq_self_eq_true] at other
        exact absurd other (by decide)
      · omega
    | some i =>
      cases i with
      | succ i => exact stray ⟨i + 1, Nat.succ_pos i, by rw [holds.entries_eq]; exact found⟩
      | zero =>
        rw [hookUnsubscribe_first tsize holds small found] at unsubscribed
        cases unsubscribed
        obtain ⟨inside, match_, -⟩ := List.findIdx?_eq_some_iff_getElem.mp found
        have after : (HookState.subscribers E { s with list := s.list }).entries.card = entries.length :=
          (congrArg Multiset.card before).trans (Multiset.coe_card _)
        rw [after] at outcome
        rcases outcome with ⟨-, count⟩ | ⟨none, -⟩
        · omega
        · exact none _ (Multiset.mem_coe.mpr (List.getElem_mem inside)) (beq_iff_eq.mp match_)

end Steps

/-! ### Whole runs -/

section Runs

variable {E : ArrayEnv} {Args : Type}

/-- The list holds entries, and there is room for those that the rest of the run adds. -/
def HookState.Within (E : ArrayEnv) (limit : Nat) (s : HookState Args)
    (left : List (HookOp Args)) : Prop :=
  ∃ entries, s.list.HoldsEntries E entries ∧
    E.tsize * (2 * (entries.length + (left.map HookOp.adds).sum) + 4) + 24 ≤ limit ∧
    entries.length + (left.map HookOp.adds).sum < 2 ^ 31

/-- **The hook follows its subscribers along a run** if and only if every unsubscribe finds its function
behind the first entry. -/
theorem hookAlong_iff {limit : Nat} (valid : E.Valid) (grants : E.Grants limit) (tsize : E.tsize = 16)
    {s : HookState Args} {ops : List (HookOp Args)} (within : s.Within E limit ops) :
    Along (hookStep E) (HookSimulates E) s ops ↔
      Along (hookStep E) (fun s op => op.FoundBehind E s) s ops := by
  refine along_congr_left (I := HookState.Within E limit) ?_ ?_ within
  · rintro s op rest ⟨entries, holds, fits, small⟩
    rw [List.map_cons, List.sum_cons] at fits small
    rw [tsize] at fits
    constructor
    · intro simulates
      by_contra stray
      exact hookStep_strays tsize holds (by omega) stray simulates
    · intro behind
      obtain ⟨s', -, step, -, -, simulated⟩ := hookStep_simulates valid grants tsize holds
        (by rw [tsize]; omega) (by omega) behind
      exact ⟨s', step, simulated⟩
  · rintro s op rest s' ⟨entries, holds, fits, small⟩ behind step
    rw [List.map_cons, List.sum_cons] at fits small
    rw [tsize] at fits
    obtain ⟨t, entries', step', holds', count, -⟩ := hookStep_simulates valid grants tsize holds
      (by rw [tsize]; omega) (by omega) behind
    rw [step] at step'
    cases step'
    exact ⟨entries', holds', by rw [tsize]; omega, by omega⟩

end Runs

/-- **A hook is a multiset of its subscribers as long as nothing unsubscribes its first entry or a
function that is not there.** In a run from a new hook, every operation is defined and does to the hook
what it does to the subscribers if and only if every unsubscribe finds its function behind the first
entry. -/
theorem hookRun_subscribers (E : ArrayEnv) (Args : Type) (valid : E.Valid) (tsize : E.tsize = 16)
    {limit : Nat} (grants : E.Grants limit) (ops : List (HookOp Args))
    (fits : E.tsize * (2 * (ops.map HookOp.adds).sum + 4) + 24 ≤ limit)
    (small : (ops.map HookOp.adds).sum < 2 ^ 31) (mem : Mem) :
    ∃ s, hookInit E Args mem = some s ∧ s.subscribers E = ⟨0, []⟩ ∧
      (Along (hookStep E) (HookSimulates E) s ops ↔
        Along (hookStep E) (fun s op => op.FoundBehind E s) s ops) := by
  obtain ⟨list, started, held⟩ := arrayInit_holds valid grants (by rw [tsize] at fits ⊢; omega) mem
  have holds : list.HoldsEntries E [] := ⟨[], 4, held, rfl⟩
  refine ⟨⟨list, []⟩, ?_, ?_, hookAlong_iff valid grants tsize ⟨[], holds, ?_, ?_⟩⟩
  · rw [hookInit, started, Option.map_some]
  · rw [HookState.subscribers, holds.entries_eq]
    rfl
  · rwa [List.length_nil, Nat.zero_add]
  · rwa [List.length_nil, Nat.zero_add]

/-- A hook in a heap of one block. -/
def blockHook : ArrayEnv := ⟨Realloc.single, 4096, 16⟩

theorem hookRun_subscribers_three : ∃ s, hookInit blockHook Nat (fun _ => 0) = some s ∧
    s.subscribers blockHook = ⟨0, []⟩ ∧
    (Along (hookStep blockHook) (HookSimulates blockHook) s
        [.subscribe 16 1, .subscribe 32 2, .subscribe 32 3, .unsubscribe 32, .invoke 7] ↔
      Along (hookStep blockHook) (fun s op => op.FoundBehind blockHook s) s
        [.subscribe 16 1, .subscribe 32 2, .subscribe 32 3, .unsubscribe 32, .invoke 7]) :=
  hookRun_subscribers blockHook Nat ⟨by decide, by decide⟩ rfl Realloc.single_grants
    [.subscribe 16 1, .subscribe 32 2, .subscribe 32 3, .unsubscribe 32, .invoke 7] (by decide)
      (by decide) _

/-- **The only subscriber does not unsubscribe.** -/
theorem only_subscriber_kept : ¬ ∃ s, hookInit blockHook Nat (fun _ => 0) = some s ∧
    Along (hookStep blockHook) (HookSimulates blockHook) s [.subscribe 16 1, .unsubscribe 16] := by
  rintro ⟨s, started, along⟩
  have valid : blockHook.Valid := ⟨by decide, by decide⟩
  obtain ⟨list, init, held⟩ := arrayInit_holds valid Realloc.single_grants (by decide) (fun _ => 0)
  rw [hookInit, init, Option.map_some] at started
  cases started
  have holds : list.HoldsEntries blockHook [] := ⟨[], 4, held, rfl⟩
  obtain ⟨next, subscribed, holds'⟩ :=
    hookSubscribe_holds valid Realloc.single_grants rfl holds (by decide) (by decide) 16 1
  have step : hookStep blockHook (⟨list, []⟩ : HookState Nat) (.subscribe 16 1) = some ⟨next, []⟩ := by
    rw [hookStep, subscribed, Option.map_some]
  refine hookStep_strays rfl holds' (by decide) ?_ (along.2 _ step).1
  rintro ⟨i, pos, found⟩
  rw [holds'.entries_eq] at found
  cases found
  exact absurd pos (by decide)

end Vaudou
