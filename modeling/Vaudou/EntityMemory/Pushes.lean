/-
**Concurrent pushes onto an entity list.**

A call of `add_entity_allocation` loads `root->next`, writes `info->next`, compares and swaps
`root->next`, and tests what the swap returned; the steps of other calls may come between any two of
them. The test repeats the loop after a swap that found a list that was not empty, so that the call finds
its own allocation in the next round, and links it to itself.

* `addEntityAllocation_schedule` — the calls of `add_entity_allocation` one after another are schedules.
* `pushStep_phase` — what one step of any call does to the list.
* `pushes_linearize_iff` — all calls can return, and the list is then the old one with the new
  allocations, exactly if nothing is pushed, or one allocation onto an empty list.
-/

import Mathlib.Data.List.Pairwise
import Vaudou.EntityMemory.Lists
import Vaudou.Foundation.Run

namespace Vaudou

open Vaudou.Memory Vaudou.Run

/-! ### Lists -/

/-- The list that starts at `p`: every member links to the next one, and the last one to null. -/
def InfoList (mem : Mem) : (p : Nat) → (members : List Nat) → Prop
  | p, [] => p = 0
  | p, info :: rest => p = info ∧ info ≠ 0 ∧ InfoList mem (infoNext mem info) rest

/-- Two allocations have headers of their own. -/
def HeadersApart (p q : Nat) : Prop := p + entityAllocationInfoSize ≤ q ∨ q + entityAllocationInfoSize ≤ p

/-- The root is not in the header of an allocation. -/
def ListRoot.Apart : ListRoot → Nat → Prop
  | .freeList, _ => True
  | .info root, p => HeadersApart root p

section Lists

variable {mem mem' : Mem} {mm : EntityMemory} {root : ListRoot} {p q next : Nat} {members : List Nat}

theorem HeadersApart.symm (apart : HeadersApart p q) : HeadersApart q p := Or.symm apart

instance : Std.Symm HeadersApart := ⟨fun _ _ => HeadersApart.symm⟩

theorem HeadersApart.ne (apart : HeadersApart p q) : p ≠ q := by
  have size : entityAllocationInfoSize = 16 := rfl
  unfold HeadersApart at apart
  omega

/-- A list starts at its first member, and an empty one at null. -/
theorem InfoList.start : ∀ {members : List Nat} {p : Nat}, InfoList mem p members →
    p = members.headD 0
  | [], _, list => list
  | _ :: _, _, list => list.1

/-- A list starts at null only if it is empty. -/
theorem InfoList.start_ne (list : InfoList mem p members) (nonempty : members ≠ []) : p ≠ 0 := by
  cases members with
  | nil => exact absurd rfl nonempty
  | cons info rest =>
    obtain ⟨rfl, nonzero, -⟩ := list
    exact nonzero

/-- A list is made of the links of its members. -/
theorem InfoList.congr : ∀ {members : List Nat} {p : Nat}, InfoList mem p members →
    (∀ q ∈ members, infoNext mem' q = infoNext mem q) → InfoList mem' p members
  | [], _, list, _ => list
  | info :: rest, p, ⟨here, nonzero, list⟩, same => by
    refine ⟨here, nonzero, ?_⟩
    rw [same info List.mem_cons_self]
    exact list.congr fun q member => same q (List.mem_cons_of_mem _ member)

/-- **An allocation that links to itself** starts no list. -/
theorem not_infoList_of_self (self : infoNext mem p = p) (nonzero : p ≠ 0) :
    ∀ members : List Nat, ¬ InfoList mem p members
  | [], list => nonzero list
  | info :: rest, ⟨here, _, list⟩ => by
    subst here
    rw [self] at list
    exact not_infoList_of_self self nonzero rest list

/-- The links of the other allocations stay. -/
theorem infoNext_setInfoNext_other (apart : HeadersApart p q) :
    infoNext (setInfoNext mm p next).mem q = infoNext mm.mem q := by
  have size : entityAllocationInfoSize = 16 := rfl
  unfold HeadersApart at apart
  exact readNat_congr ((writeNat_changedWithin mm.mem (p + 8) 8 next).same (by omega))

theorem loadNext_setInfoNext (apart : root.Apart p) :
    loadNext (setInfoNext mm p next) root = loadNext mm root := by
  cases root with
  | freeList => rfl
  | info r => exact infoNext_setInfoNext_other apart.symm

theorem loadNext_setNext (fits : next < 2 ^ 64) : loadNext (setNext mm next root) root = next := by
  cases root with
  | freeList => rfl
  | info r => exact infoNext_setInfoNext fits

theorem infoNext_setNext (apart : root.Apart p) :
    infoNext (setNext mm next root).mem p = infoNext mm.mem p := by
  cases root with
  | freeList => rfl
  | info r => exact infoNext_setInfoNext_other apart

end Lists

/-! ### Steps -/

/-- Where a call of `add_entity_allocation` is in its loop. -/
inductive PushPoint where
  | load
  | link (prevNext : Nat)
  | swap (prevNext : Nat)
  | test (old : Nat)
  | returned
deriving DecidableEq

/-- The memory, and where the call with each allocation is. -/
structure PushState where
  mm : EntityMemory
  point : Nat → PushPoint

/-- **An atomic step** of the call of `add_entity_allocation` with `info`. A call that finds its own
allocation leaves the loop; so does one whose swap returned null. -/
def pushStep (root : ListRoot) (s : PushState) (info : Nat) : Option PushState :=
  match s.point info with
  | .load =>
    some { s with point := Function.update s.point info (.link (loadNext s.mm root)) }
  | .link prevNext =>
    some ⟨setInfoNext s.mm info prevNext,
      Function.update s.point info (if prevNext = info then .returned else .swap prevNext)⟩
  | .swap prevNext =>
    let swapped := compareAndSwapNext s.mm root info prevNext
    some ⟨swapped.1, Function.update s.point info (.test swapped.2)⟩
  | .test old =>
    some { s with point := Function.update s.point info (if old ≠ 0 then .load else .returned) }
  | .returned => none

/-- All calls are in front of their first load. -/
def PushState.start (mm : EntityMemory) (nodes : List Nat) : PushState :=
  ⟨mm, fun info => if info ∈ nodes then .load else .returned⟩

/-- All calls have returned. -/
def PushState.Returned (s : PushState) (nodes : List Nat) : Prop := ∀ info ∈ nodes, s.point info = .returned

/-- **The list has the old members in their order and each new one once.** -/
def Pushed (mm : EntityMemory) (root : ListRoot) (old nodes : List Nat) : Prop :=
  ∃ members, InfoList mm.mem (loadNext mm root) members ∧ members.Perm (nodes ++ old) ∧
    old.Sublist members

/-- The old list, and new allocations that are not in it. -/
structure PushSite (mm : EntityMemory) (root : ListRoot) (old nodes : List Nat) : Prop where
  list : InfoList mm.mem (loadNext mm root) old
  apart : (nodes ++ old).Pairwise HeadersApart
  rootApart : ∀ p ∈ nodes ++ old, root.Apart p
  words : ∀ p ∈ nodes ++ old, p ≠ 0 ∧ p < 2 ^ 64

section Site

variable {mm : EntityMemory} {root : ListRoot} {old nodes : List Nat} {p q : Nat}

theorem PushSite.nodup (site : PushSite mm root old nodes) : nodes.Nodup :=
  (List.pairwise_append.mp site.apart).1.imp fun apart => apart.ne

/-- Two new allocations have headers of their own. -/
theorem PushSite.apart_nodes (site : PushSite mm root old nodes) (memberP : p ∈ nodes)
    (memberQ : q ∈ nodes) (different : p ≠ q) : HeadersApart p q :=
  (List.pairwise_append.mp site.apart).1.forall memberP memberQ different

theorem PushSite.apart_old (site : PushSite mm root old nodes) (memberP : p ∈ nodes)
    (memberQ : q ∈ old) : HeadersApart p q :=
  (List.pairwise_append.mp site.apart).2.2 p memberP q memberQ

theorem PushSite.word (site : PushSite mm root old nodes) (member : p ∈ nodes) : p ≠ 0 ∧ p < 2 ^ 64 :=
  site.words p (List.mem_append_left old member)

/-- The old list starts at null or at an address. -/
theorem PushSite.head_word (site : PushSite mm root old nodes) : old.headD 0 < 2 ^ 64 := by
  cases old with
  | nil => norm_num
  | cons first rest => exact (site.words first (List.mem_append_right nodes List.mem_cons_self)).2

/-- No new allocation is the first member of the old list. -/
theorem PushSite.head_ne (site : PushSite mm root old nodes) (member : p ∈ nodes) :
    old.headD 0 ≠ p := by
  cases old with
  | nil => exact (site.word member).1.symm
  | cons first rest => exact (site.apart_old member List.mem_cons_self).ne.symm

theorem PushSite.apart_root (site : PushSite mm root old nodes) (member : p ∈ nodes) : root.Apart p :=
  site.rootApart p (List.mem_append_left old member)

end Site

/-! ### What the steps do to the list -/

section Phases

variable {mm : EntityMemory} {root : ListRoot} {old nodes : List Nat} {s s' : PushState} {info p q : Nat}

/-- **What calls have done to the list**: nothing, or the first push onto an empty list, or more. Then the
last one to swap has read a list that was not empty. -/
inductive PushPhase (root : ListRoot) (old nodes : List Nat) (s : PushState) : Prop
  | untouched (list : InfoList s.mm.mem (loadNext s.mm root) old)
      (points : ∀ m ∈ nodes, s.point m = .load ∨ s.point m = .link (old.headD 0) ∨
        s.point m = .swap (old.headD 0) ∧ infoNext s.mm.mem m = old.headD 0)
  | first (n : Nat) (member : n ∈ nodes) (empty : old = []) (next : loadNext s.mm root = n)
      (last : infoNext s.mm.mem n = 0) (point : s.point n = .test 0 ∨ s.point n = .returned)
      (others : ∀ m ∈ nodes, m ≠ n → s.point m = .load ∨ s.point m = .test n ∨
        ∃ prevNext, (prevNext = 0 ∨ prevNext = n) ∧
          (s.point m = .link prevNext ∨ s.point m = .swap prevNext))
  | crowded (n : Nat) (member : n ∈ nodes) (many : old ≠ [] ∨ 2 ≤ nodes.length)
      (next : loadNext s.mm root = n) (goesOn : s.point n ≠ .test 0)
      (self : s.point n = .returned → infoNext s.mm.mem n = n)

/-- Two calls. -/
theorem two_le_length (memberP : p ∈ nodes) (memberQ : q ∈ nodes) (different : p ≠ q) :
    2 ≤ nodes.length := by
  cases nodes with
  | nil => cases memberP
  | cons first rest =>
    cases rest with
    | nil =>
      rw [List.mem_singleton] at memberP memberQ
      exact absurd (memberP.trans memberQ.symm) different
    | cons second rest => simp

/-- A swap that finds what it expects. -/
theorem compareAndSwapNext_found (mm : EntityMemory) (root : ListRoot) (info : Nat) :
    compareAndSwapNext mm root info (loadNext mm root) = (setNext mm info root, loadNext mm root) := by
  simp [compareAndSwapNext]

/-- A swap that finds something else. -/
theorem compareAndSwapNext_missed {expected : Nat} (other : loadNext mm root ≠ expected) :
    compareAndSwapNext mm root info expected = (mm, loadNext mm root) := by
  simp [compareAndSwapNext, other]

/-- **One step of a call** on a list that no call has changed. -/
theorem pushStep_untouched (site : PushSite mm root old nodes)
    (list : InfoList s.mm.mem (loadNext s.mm root) old)
    (points : ∀ m ∈ nodes, s.point m = .load ∨ s.point m = .link (old.headD 0) ∨
      s.point m = .swap (old.headD 0) ∧ infoNext s.mm.mem m = old.headD 0)
    (member : info ∈ nodes) (stepped : pushStep root s info = some s') :
    PushPhase root old nodes s' := by
  have head := list.start
  obtain ⟨nonzero, word⟩ := site.word member
  rw [pushStep] at stepped
  rcases points info member with load | link | ⟨swap, linked⟩
  · -- the first member is loaded
    simp only [load, Option.some.injEq] at stepped
    subst stepped
    refine .untouched list fun m inside => ?_
    by_cases this : m = info
    · subst this
      exact Or.inr (Or.inl (by simp [head]))
    · simpa [this] using points m inside
  · -- the link is written; the call is not in the list
    simp only [link, Option.some.injEq] at stepped
    subst stepped
    have notSelf := site.head_ne member
    have same : loadNext (setInfoNext s.mm info (old.headD 0)) root = loadNext s.mm root :=
      loadNext_setInfoNext (site.apart_root member)
    refine .untouched ?_ fun m inside => ?_
    · rw [same]
      exact list.congr fun q inOld => infoNext_setInfoNext_other (site.apart_old member inOld)
    · by_cases this : m = info
      · subst this
        exact Or.inr (Or.inr ⟨by simp only [Function.update_self, if_neg notSelf],
          infoNext_setInfoNext site.head_word⟩)
      · have apart := site.apart_nodes member inside (Ne.symm this)
        simpa [this, infoNext_setInfoNext_other apart] using points m inside
  · -- the swap finds what it expects
    simp only [swap, Option.some.injEq] at stepped
    rw [← head] at swap linked
    rw [← head, compareAndSwapNext_found] at stepped
    subst stepped
    have now : loadNext (setNext s.mm info root) root = info := loadNext_setNext word
    have kept : infoNext (setNext s.mm info root).mem info = loadNext s.mm root := by
      rw [infoNext_setNext (site.apart_root member), linked]
    by_cases empty : old = []
    · have zero : loadNext s.mm root = 0 := by
        rw [head, empty]
        rfl
      refine .first info member empty now (kept.trans zero) (Or.inl (by simp [zero])) ?_
      intro m inside different
      have here : old.headD 0 = 0 := by rw [empty]; rfl
      rcases points m inside with load | link | ⟨swap, -⟩
      · exact Or.inl (by simp [different, load])
      · exact Or.inr (Or.inr ⟨0, Or.inl rfl, Or.inl (by simp [different, link, empty])⟩)
      · exact Or.inr (Or.inr ⟨0, Or.inl rfl, Or.inr (by simp [different, swap, empty])⟩)
    · have occupied := list.start_ne empty
      exact .crowded info member (Or.inl empty) now (by simp [occupied]) (by simp)

/-- Where another call can be after the first push of `n` onto an empty list. -/
def BehindFirst (n : Nat) (point : PushPoint) : Prop :=
  point = .load ∨ point = .test n ∨
    ∃ prevNext, (prevNext = 0 ∨ prevNext = n) ∧ (point = .link prevNext ∨ point = .swap prevNext)

/-- After the first push, another call moves on and leaves the list. -/
theorem PushPhase.first_moves {n : Nat} {mm' : EntityMemory} {point' : PushPoint} (memberN : n ∈ nodes)
    (empty : old = []) (next : loadNext mm' root = n) (last : infoNext mm'.mem n = 0)
    (point : s.point n = .test 0 ∨ s.point n = .returned)
    (others : ∀ m ∈ nodes, m ≠ n → BehindFirst n (s.point m)) (other : info ≠ n)
    (now : BehindFirst n point') :
    PushPhase root old nodes ⟨mm', Function.update s.point info point'⟩ := by
  refine .first n memberN empty next last (by simpa [Ne.symm other] using point)
    fun m inside different => ?_
  show BehindFirst n (Function.update s.point info point' m)
  by_cases this : m = info
  · subst this
    rwa [Function.update_self]
  · rw [Function.update_of_ne this]
    exact others m inside different

/-- **One step of a call** after the first push onto an empty list. A push that follows finds the first
one. -/
theorem pushStep_first {n : Nat} (site : PushSite mm root old nodes) (memberN : n ∈ nodes)
    (empty : old = []) (next : loadNext s.mm root = n) (last : infoNext s.mm.mem n = 0)
    (point : s.point n = .test 0 ∨ s.point n = .returned)
    (others : ∀ m ∈ nodes, m ≠ n → BehindFirst n (s.point m))
    (member : info ∈ nodes) (stepped : pushStep root s info = some s') :
    PushPhase root old nodes s' := by
  obtain ⟨nonzero, word⟩ := site.word member
  obtain ⟨nonzeroN, -⟩ := site.word memberN
  rw [pushStep] at stepped
  by_cases this : info = n
  · -- the first call returns
    subst this
    rcases point with test | returned
    · simp only [test, Option.some.injEq] at stepped
      subst stepped
      refine .first info member empty next last (Or.inr (by simp)) fun m inside different => ?_
      show BehindFirst info (Function.update s.point info _ m)
      rw [Function.update_of_ne different]
      exact others m inside different
    · simp [returned] at stepped
  · have apart := site.apart_nodes member memberN this
    rcases others info member this with load | test | ⟨prevNext, read, link | swap⟩
    · simp only [load, Option.some.injEq] at stepped
      subst stepped
      exact .first_moves memberN empty next last point others this
        (Or.inr (Or.inr ⟨n, Or.inr rfl, Or.inl (by rw [next])⟩))
    · simp only [test, Option.some.injEq] at stepped
      subst stepped
      exact .first_moves memberN empty next last point others this (Or.inl (if_pos nonzeroN))
    · simp only [link, Option.some.injEq] at stepped
      subst stepped
      have notSelf : prevNext ≠ info := by
        rcases read with rfl | rfl
        · exact nonzero.symm
        · exact Ne.symm this
      exact .first_moves memberN empty ((loadNext_setInfoNext (site.apart_root member)).trans next)
        ((infoNext_setInfoNext_other apart).trans last) point others this
        (Or.inr (Or.inr ⟨prevNext, read, Or.inr (if_neg notSelf)⟩))
    · simp only [swap, Option.some.injEq] at stepped
      by_cases found : prevNext = n
      · -- the second push
        rw [found, ← next, compareAndSwapNext_found, next] at stepped
        subst stepped
        exact .crowded info member (Or.inr (two_le_length member memberN this)) (loadNext_setNext word)
          (by simp [nonzeroN]) (by simp)
      · have missed : loadNext s.mm root ≠ prevNext := by
          rw [next]
          exact Ne.symm found
        rw [compareAndSwapNext_missed missed] at stepped
        subst stepped
        exact .first_moves memberN empty next last point others this (Or.inr (Or.inl (by rw [next])))

/-- **One step of a call** after a swap that did not find an empty list. -/
theorem pushStep_crowded {n : Nat} (site : PushSite mm root old nodes) (memberN : n ∈ nodes)
    (many : old ≠ [] ∨ 2 ≤ nodes.length) (next : loadNext s.mm root = n) (goesOn : s.point n ≠ .test 0)
    (self : s.point n = .returned → infoNext s.mm.mem n = n) (member : info ∈ nodes)
    (stepped : pushStep root s info = some s') : PushPhase root old nodes s' := by
  obtain ⟨-, word⟩ := site.word member
  obtain ⟨nonzeroN, -⟩ := site.word memberN
  rw [pushStep] at stepped
  cases here : s.point info with
  | load =>
    simp only [here, Option.some.injEq] at stepped
    subst stepped
    by_cases this : n = info
    · exact .crowded n memberN many next (by simp [this]) (by simp [this])
    · exact .crowded n memberN many next (by simpa [this] using goesOn) (by simpa [this] using self)
  | link prevNext =>
    simp only [here, Option.some.injEq] at stepped
    subst stepped
    have next' : loadNext (setInfoNext s.mm info prevNext) root = n :=
      (loadNext_setInfoNext (site.apart_root member)).trans next
    by_cases this : n = info
    · -- a call that leaves the loop here has linked its allocation to itself
      subst this
      refine .crowded n memberN many next' ?_ fun returned => ?_
      · dsimp only
        rw [Function.update_self]
        split <;> simp
      · dsimp only at returned
        rw [Function.update_self] at returned
        split at returned
        · rename_i found
          rw [found]
          exact infoNext_setInfoNext word
        · cases returned
    · have apart := site.apart_nodes member memberN (Ne.symm this)
      exact .crowded n memberN many next' (by simpa [this] using goesOn)
        (by simpa [this, infoNext_setInfoNext_other apart] using self)
  | swap prevNext =>
    simp only [here, Option.some.injEq] at stepped
    by_cases found : prevNext = n
    · rw [found, ← next, compareAndSwapNext_found, next] at stepped
      subst stepped
      exact .crowded info member many (loadNext_setNext word) (by simp [nonzeroN]) (by simp)
    · have missed : loadNext s.mm root ≠ prevNext := by
        rw [next]
        exact Ne.symm found
      rw [compareAndSwapNext_missed missed, next] at stepped
      subst stepped
      by_cases this : info = n
      · subst this
        exact .crowded info memberN many next (by simp [nonzeroN]) (by simp)
      · have other : ∀ point', Function.update s.point info point' n = s.point n := fun _ =>
          Function.update_of_ne (Ne.symm this) _ _
        exact .crowded n memberN many next (by simpa [other] using goesOn) (by simpa [other] using self)
  | test found =>
    simp only [here, Option.some.injEq] at stepped
    subst stepped
    by_cases this : n = info
    · subst this
      have again : found ≠ 0 := by
        rintro rfl
        exact goesOn here
      exact .crowded n memberN many next (by simp [again]) (by simp [again])
    · exact .crowded n memberN many next (by simpa [this] using goesOn) (by simpa [this] using self)
  | returned => simp [here] at stepped

/-- **One step of any call.** -/
theorem pushStep_phase (site : PushSite mm root old nodes) (phase : PushPhase root old nodes s)
    (member : info ∈ nodes) (stepped : pushStep root s info = some s') :
    PushPhase root old nodes s' := by
  cases phase with
  | untouched list points => exact pushStep_untouched site list points member stepped
  | first n memberN empty next last point others =>
    exact pushStep_first site memberN empty next last point others member stepped
  | crowded n memberN many next goesOn self =>
    exact pushStep_crowded site memberN many next goesOn self member stepped

end Phases

/-! ### Schedules -/

section Schedules

variable {mm mm' : EntityMemory} {root : ListRoot} {old nodes : List Nat} {s : PushState} {info : Nat}

/-- A call that is alone goes through the rounds of the loop. -/
theorem addEntityAllocationLoop_schedule : ∀ {fuel : Nat} {mm : EntityMemory} {point : Nat → PushPoint},
    point info = .load → addEntityAllocationLoop fuel mm root info = some mm' →
      ∃ rounds, run (pushStep root) ⟨mm, point⟩ (List.replicate rounds info) =
        some ⟨mm', Function.update point info .returned⟩
  | 0, _, _, _, ran => by cases ran
  | fuel + 1, mm, point, load, ran => by
    rw [addEntityAllocationLoop] at ran
    dsimp only at ran
    split at ran
    · -- the allocation finds itself
      rename_i self
      obtain rfl := Option.some.inj ran
      refine ⟨2, ?_⟩
      simp [List.replicate, run, pushStep, load, self]
    · rename_i other
      split at ran
      · rename_i again
        obtain ⟨rounds, later⟩ := addEntityAllocationLoop_schedule (Function.update_self info .load point) ran
        refine ⟨rounds + 4, ?_⟩
        rw [Function.update_idem] at later
        simp [List.replicate, run, pushStep, load, other, again, later]
      · rename_i ends
        have ends := not_not.mp ends
        obtain rfl := Option.some.inj ran
        refine ⟨4, ?_⟩
        simp [List.replicate, run, pushStep, load, other, ends]

/-- **`add_entity_allocation` is a schedule** of the steps of its call. -/
theorem addEntityAllocation_schedule {point : Nat → PushPoint} (load : point info = .load)
    (ran : addEntityAllocation mm root info = some mm') :
    ∃ rounds, run (pushStep root) ⟨mm, point⟩ (List.replicate rounds info) =
      some ⟨mm', Function.update point info .returned⟩ :=
  addEntityAllocationLoop_schedule load ran

/-- **`add_entity_allocation` returns.** In its second round the allocation is first in the list. -/
theorem addEntityAllocation_returns (apart : root.Apart info) (word : info < 2 ^ 64)
    (mm : EntityMemory) : ∃ mm', addEntityAllocation mm root info = some mm' := by
  have found : loadNext (setInfoNext mm info (loadNext mm root)) root = loadNext mm root :=
    loadNext_setInfoNext apart
  have now : loadNext (setNext (setInfoNext mm info (loadNext mm root)) info root) root = info :=
    loadNext_setNext word
  rw [addEntityAllocation, addEntityAllocationLoop]
  dsimp only
  split
  · exact ⟨_, rfl⟩
  · have swapped := compareAndSwapNext_found (setInfoNext mm info (loadNext mm root)) root info
    rw [found] at swapped
    rw [swapped]
    split
    · rw [addEntityAllocationLoop]
      dsimp only
      rw [now, if_pos rfl]
      exact ⟨_, rfl⟩
    · exact ⟨_, rfl⟩

/-- The calls can return, one after another. -/
theorem pushes_return : ∀ {calls : List Nat} {s : PushState}, calls.Nodup →
    (∀ info ∈ calls, root.Apart info ∧ info < 2 ^ 64 ∧ s.point info = .load) →
      ∃ schedule s', run (pushStep root) s schedule = some s' ∧ s'.Returned calls ∧
        ∀ other, other ∉ calls → s'.point other = s.point other
  | [], s, _, _ => ⟨[], s, rfl, fun _ member => absurd member List.not_mem_nil, fun _ _ => rfl⟩
  | info :: rest, s, distinct, ready => by
    obtain ⟨apart, word, load⟩ := ready info List.mem_cons_self
    obtain ⟨mm', pushed⟩ := addEntityAllocation_returns apart word s.mm
    obtain ⟨rounds, ran⟩ := addEntityAllocation_schedule load pushed
    obtain ⟨fresh, distinct'⟩ := List.nodup_cons.mp distinct
    have ready' : ∀ next ∈ rest, root.Apart next ∧ next < 2 ^ 64 ∧
        Function.update s.point info .returned next = .load := by
      intro next member
      have different : next ≠ info := fun same => fresh (same ▸ member)
      rw [Function.update_of_ne different]
      exact ready next (List.mem_cons_of_mem _ member)
    obtain ⟨schedule, s', ran', returned, others⟩ :=
      pushes_return (s := ⟨mm', Function.update s.point info .returned⟩) distinct' ready'
    refine ⟨List.replicate rounds info ++ schedule, s', run_append_some.mpr ⟨_, ran, ran'⟩,
      fun next member => ?_, fun other absent => ?_⟩
    · rcases List.mem_cons.mp member with rfl | later
      · exact (others next fresh).trans (Function.update_self _ _ _)
      · exact returned next later
    · obtain ⟨different, absent'⟩ := List.ne_and_not_mem_of_not_mem_cons absent
      exact (others other absent').trans (Function.update_of_ne different _ _)

/-- **One phase after another**, in every schedule. -/
theorem pushes_phase (site : PushSite mm root old nodes) {schedule : List Nat}
    (ran : run (pushStep root) (.start mm nodes) schedule = some s) : PushPhase root old nodes s := by
  have start : PushPhase root old nodes (.start mm nodes) ∧
      ∀ other, other ∉ nodes → (PushState.start mm nodes).point other = .returned :=
    ⟨.untouched site.list fun m member => Or.inl (if_pos member), fun other absent => if_neg absent⟩
  refine (run_invariant (I := fun s => PushPhase root old nodes s ∧
    ∀ other, other ∉ nodes → s.point other = .returned) ?_ ran start).1
  rintro s info s' ⟨phase, outside⟩ stepped
  have member : info ∈ nodes := by
    by_contra absent
    rw [pushStep, outside info absent] at stepped
    cases stepped
  refine ⟨pushStep_phase site phase member stepped, fun other absent => ?_⟩
  have different : other ≠ info := fun same => absent (same ▸ member)
  have kept : s'.point other = s.point other := by
    unfold pushStep at stepped
    split at stepped <;> simp only [Option.some.injEq, reduceCtorEq] at stepped <;> subst stepped <;>
      exact Function.update_of_ne different _ _
  exact kept.trans (outside other absent)

/-- **When all calls have returned**, the list has what was pushed exactly if that was nothing, or one
allocation onto an empty list. -/
theorem PushPhase.pushed_iff (site : PushSite mm root old nodes) (phase : PushPhase root old nodes s)
    (returned : s.Returned nodes) :
    Pushed s.mm root old nodes ↔ nodes = [] ∨ old = [] ∧ nodes.length = 1 := by
  cases phase with
  | untouched list points =>
    have nothing : nodes = [] := by
      refine List.eq_nil_iff_forall_not_mem.mpr fun m member => ?_
      have here := returned m member
      rcases points m member with load | link | ⟨swap, -⟩
      · rw [here] at load
        cases load
      · rw [here] at link
        cases link
      · rw [here] at swap
        cases swap
    subst nothing
    exact iff_of_true ⟨old, list, List.Perm.refl old, List.Sublist.refl old⟩ (Or.inl rfl)
  | first n member empty next last point others =>
    have only : ∀ m ∈ nodes, m = n := by
      intro m inside
      by_contra different
      have here := returned m inside
      rcases others m inside different with load | test | ⟨prevNext, -, link | swap⟩
      · rw [here] at load
        cases load
      · rw [here] at test
        cases test
      · rw [here] at link
        cases link
      · rw [here] at swap
        cases swap
    have single : nodes = [n] := by
      rw [List.eq_replicate_of_mem only]
      have one := List.nodup_iff_count_le_one.mp site.nodup n
      rw [List.eq_replicate_of_mem only, List.count_replicate_self] at one
      have some := List.length_pos_of_mem member
      rw [show nodes.length = 1 by omega]
      rfl
    subst single
    subst empty
    refine iff_of_true ⟨[n], ?_, List.Perm.refl _, List.nil_sublist _⟩ (Or.inr ⟨rfl, rfl⟩)
    exact ⟨next, (site.word member).1, last⟩
  | crowded n member many next goesOn self =>
    refine iff_of_false ?_ ?_
    · rintro ⟨members, list, -⟩
      rw [next] at list
      exact not_infoList_of_self (self (returned n member)) (site.word member).1 members list
    · rintro (rfl | ⟨rfl, one⟩)
      · cases member
      · rcases many with occupied | two
        · exact occupied rfl
        · omega

/-- **Pushes are linearizable exactly if at most one allocation is pushed, and onto an empty list.** For
every list and any new allocations, all calls can return, and in every schedule in which they have the
list is acyclic with the old members in their order and each new one once, if and only if nothing is
pushed or one allocation onto an empty list. -/
theorem pushes_linearize_iff (site : PushSite mm root old nodes) :
    (∃ schedule s, run (pushStep root) (.start mm nodes) schedule = some s ∧ s.Returned nodes) ∧
    ∀ schedule s, run (pushStep root) (.start mm nodes) schedule = some s → s.Returned nodes →
      (Pushed s.mm root old nodes ↔ nodes = [] ∨ old = [] ∧ nodes.length = 1) := by
  constructor
  · have ready : ∀ info ∈ nodes, root.Apart info ∧ info < 2 ^ 64 ∧
        (PushState.start mm nodes).point info = .load := fun info member =>
      ⟨site.apart_root member, (site.word member).2, if_pos member⟩
    obtain ⟨schedule, s, ran, returned, -⟩ := pushes_return site.nodup ready
    exact ⟨schedule, s, ran, returned⟩
  · intro schedule s ran returned
    exact (pushes_phase site ran).pushed_iff site returned

/-- The free list is `next`, in a memory of zeros. -/
def zeroedLists (next : Nat) : EntityMemory := ⟨fun _ => 0, ⟨16, 80, 16⟩, next, fun _ => none⟩

/-- One allocation is pushed onto the empty free list. -/
theorem pushes_linearize_iff_single : ∃ schedule s,
    run (pushStep .freeList) (.start (zeroedLists 0) [32]) schedule = some s ∧ s.Returned [32] ∧
      Pushed s.mm .freeList [] [32] := by
  have site : PushSite (zeroedLists 0) .freeList [] [32] :=
    ⟨rfl, List.pairwise_singleton _ _, fun _ _ => trivial, by decide⟩
  obtain ⟨⟨schedule, s, ran, returned⟩, decides⟩ := pushes_linearize_iff site
  exact ⟨schedule, s, ran, returned, (decides schedule s ran returned).mpr (Or.inr ⟨rfl, rfl⟩)⟩

/-- **A push onto a list links the allocation to itself.** -/
theorem push_links_to_itself :
    ¬ ∀ (mm : EntityMemory) (root : ListRoot) (old nodes : List Nat), PushSite mm root old nodes →
      ∀ schedule s, run (pushStep root) (.start mm nodes) schedule = some s → s.Returned nodes →
        Pushed s.mm root old nodes := by
  intro claimed
  have site : PushSite (zeroedLists 64) .freeList [64] [32] := by
    refine ⟨⟨rfl, by decide, show infoNext _ 64 = 0 by decide +kernel⟩, ?_, fun _ _ => trivial, by decide⟩
    exact List.pairwise_pair.mpr (Or.inl (by decide))
  have reaches : ((run (pushStep .freeList) (.start (zeroedLists 64) [32])
      (List.replicate 6 32)).any fun s => decide (s.point 32 = .returned ∧
        loadNext s.mm .freeList = 32 ∧ infoNext s.mm.mem 32 = 32)) = true := by
    decide +kernel
  obtain ⟨s, ran, facts⟩ := (Option.any_eq_true _ _).mp reaches
  obtain ⟨returned, first, self⟩ := of_decide_eq_true facts
  obtain ⟨members, list, -⟩ := claimed _ _ _ _ site _ s ran fun info member => by
    rw [List.mem_singleton.mp member]
    exact returned
  rw [first] at list
  exact not_infoList_of_self self (by decide) members list

end Schedules

end Vaudou
