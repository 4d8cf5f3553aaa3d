/-
**The sizes that containers pass match, except where they give something back.**

`Containers.held` are the blocks of the containers: of arrays, of tables, and of the tails of long keys.
As long as nothing is given back, every container knows the size of its block (`Containers.Sound`):
`vd_array_grow` passes the size that it asked for before. `VD_ARRAY_DEINIT` leaves the header out of the
size, `VD_STRMAP_DEINIT` passes the number of bins, and a deleted key the negated length of its tail.

* `containers_match` — in every run, all calls match what their pointers were obtained with if and only
  if no array and no map is deinitialised and no long key is deleted.
-/

import Vaudou.Containers.Sizes
import Vaudou.Foundation.Run
import Vaudou.StrMap.Tails

namespace Vaudou

open Vaudou.Memory Vaudou.Run

/-- Who holds blocks. -/
inductive Holder where
  | array (i : Nat)
  | map (j : Nat)
  | tail (j b : Nat)
deriving DecidableEq

section Blocks

variable (E : ContainersEnv)

/-- The block of an array, of a table, and of the tail of the key in a bin. -/
def Containers.held (s : Containers) : Holder → Option (Nat × Nat)
  | .array i =>
    if (s.arrays i).a = 0 then none
    else some ((s.arrays i).a - 24, arrayBytes (E.tsize i) (s.arrays i).cap)
  | .map j => (s.maps j).map fun m => (m.header, strmapBytes (E.valueSize j) strmapDefaultCap)
  | .tail j b => (s.maps j).bind fun m =>
    if b < m.map.capTotal ∧ 43 < (m.map.bins b).keyLen then
      some ((m.map.bins b).keyRest, (m.map.bins b).keyLen - 43)
    else none

/-- Nothing was given back to a map: bins link nowhere, only bins in use have long keys, and only those
have a tail. -/
structure StrMap.Intact (map : StrMap) : Prop where
  allocator : map.allocator = E.address
  capTotal : map.capTotal = strmapDefaultCap
  capPos : 0 < map.cap
  capLe : map.cap ≤ map.capTotal
  next : ∀ b < map.capTotal, (map.bins b).next = none
  used : ∀ b < map.capTotal, 43 < (map.bins b).keyLen → (map.bins b).used = true
  short : ∀ b < map.capTotal, (map.bins b).keyLen ≤ 43 → (map.bins b).keyRest = 0

/-- **The invariant**: every container holds its block with the size that it computes for it. -/
structure Containers.Sound (s : Containers) : Prop where
  consistent : Consistent s.calls
  holding : Holding E.address s.calls s.heap.live (s.held E)
  arrays : ∀ i, (s.arrays i).a ≠ 0 →
    24 ≤ (s.arrays i).a ∧ (s.arrays i).cap ≠ 0 ∧ (s.arrays i).allocator = E.address
  maps : ∀ j m, s.maps j = some m → m.map.Intact E

/-- **Nothing is given back**: no array and no map is deinitialised, and no key is deleted that is longer
than 43 bytes and found. -/
def SizedOp.Keeps (s : Containers) : SizedOp → Prop
  | .arrayDeinit i => (s.arrays i).a = 0
  | .mapDeinit j => s.maps j = none
  | .mapDel j key => ∀ m, s.maps j = some m → 43 < key.length →
      ∀ b, findBin ⟨m.map, s.heap, []⟩ key ≠ some (some b)
  | .arrayInit _ | .arrayGrow .. | .arrayAddn .. | .arrayRemove .. | .mapInit _ | .mapSet .. => True

end Blocks

/-! ### Calls -/

section Calls

variable {E : ContainersEnv} {s s' : Containers} {allocator ptr prevsize newsize result : Nat}

/-- What a call does: it is logged, and a new block is outstanding beside the old ones. -/
structure CallSpec (E : ContainersEnv) (s : Containers) (ptr prevsize newsize : Nat) (s' : Containers)
    (result : Nat) : Prop where
  arrays : s'.arrays = s.arrays
  maps : s'.maps = s.maps
  calls : s'.calls = s.calls ++ [⟨E.address, ptr, prevsize, newsize, result⟩]
  null : newsize = 0 → result = 0
  granted : newsize ≠ 0 → 0 < result ∧ (result, newsize) ∈ s'.heap.live ∧
    ∀ p n, (p, n) ∈ s.heap.live → p ≠ ptr → 0 < n → (p, n) ∈ s'.heap.live ∧ p ≠ result

theorem vdRealloc_spec (called : vdRealloc E s allocator ptr prevsize newsize = some (s', result)) :
    allocator = E.address ∧ CallSpec E s ptr prevsize newsize s' result := by
  obtain ⟨same, called⟩ := Option.ite_none_left_eq_some.mp called
  obtain ⟨⟨heap', p⟩, granted, pair⟩ := Option.map_eq_some_iff.mp called
  obtain ⟨rfl, rfl⟩ := Prod.mk.inj pair
  rw [not_not] at same
  subst same
  refine ⟨rfl, rfl, rfl, rfl, fun zero => ?_, fun nonzero => ?_⟩
  · rw [if_pos zero] at granted
    cases granted
    rfl
  · rw [if_neg nonzero] at granted
    have live := E.alloc.live granted
    refine ⟨E.alloc.nonnull granted, ?_, fun q n member other some_ => ⟨?_, ?_⟩⟩
    · show (p, newsize) ∈ heap'.live
      rw [live]
      exact List.mem_cons_self
    · show (q, n) ∈ heap'.live
      rw [live]
      exact List.mem_cons_of_mem _ (List.mem_filter.mpr ⟨member, bne_iff_ne.mpr other⟩)
    · exact BlockAlloc.fresh granted (Nat.pos_of_ne_zero nonzero)
        (List.mem_filter.mpr ⟨member, bne_iff_ne.mpr other⟩) some_

/-- A call changes no variable. -/
theorem CallSpec.held (spec : CallSpec E s ptr prevsize newsize s' result) : s'.held E = s.held E := by
  funext h
  cases h with
  | array i => simp only [Containers.held, spec.arrays]
  | map j => simp only [Containers.held, spec.maps]
  | tail j b => simp only [Containers.held, spec.maps]

/-- A call with what is known of a block matches; so does a call with a null pointer. -/
theorem Containers.Sound.logged (sound : s.Sound E)
    (spec : CallSpec E s ptr prevsize newsize s' result) :
    Consistent s'.calls ↔
      (ptr ≠ 0 → lastObtained s.calls ptr = some (E.address, prevsize)) := by
  rw [spec.calls, consistent_snoc]
  exact ⟨fun both => both.2, fun last => ⟨sound.consistent, last⟩⟩

/-- The size that a call for a block of a holder matches is the size of the block. -/
theorem Containers.Sound.size_eq {h : Holder} {p n a prevsize : Nat} (sound : s.Sound E)
    (own : s.held E h = some (p, n))
    (matched : p ≠ 0 → lastObtained s.calls p = some (a, prevsize)) : n = prevsize := by
  have last := sound.holding.last _ _ _ own
  obtain ⟨pos, -⟩ := sound.holding.pos _ _ _ own
  have same := matched pos.ne'
  rw [last] at same
  exact (Prod.mk.inj (Option.some.inj same)).2

/-- **A call for a block of a holder**, which passes the block that the holder has, if it has one. -/
theorem CallSpec.holding {held' : Holder → Option (Nat × Nat)} {h : Holder} (sound : s.Sound E)
    (spec : CallSpec E s ptr prevsize newsize s' result) (nonzero : newsize ≠ 0)
    (own : ptr = 0 ∨ ∃ n, s.held E h = some (ptr, n))
      (gets : ∀ x, held' h = some x → x = (result, newsize))
    (others : ∀ h' ≠ h, ∀ x, held' h' = some x → s.held E h' = some x) :
    Holding E.address s'.calls s'.heap.live held' := by
  obtain ⟨pos, fresh, kept⟩ := spec.granted nonzero
  rw [spec.calls]
  refine sound.holding.replace gets rfl fresh ⟨pos, Nat.pos_of_ne_zero nonzero⟩
    fun h' other p n has => ?_
  have before := others h' other _ has
  obtain ⟨nonnull, some_⟩ := sound.holding.pos h' p n before
  have apart : p ≠ ptr := by
    rintro rfl
    rcases own with zero | ⟨m, same⟩
    · omega
    · exact other (sound.holding.alone h' h p n m before same)
  exact ⟨before, kept p n (sound.holding.live h' p n before) apart some_⟩

end Calls

/-! ### Arrays -/

section Arrays

variable {E : ContainersEnv} {s s' : Containers} {i : Nat}

theorem sizedGrowCap_ne_zero (cap mincap : Nat) : sizedGrowCap cap mincap ≠ 0 := by
  unfold sizedGrowCap
  dsimp only
  split
  · omega
  · split <;> omega

/-- Other holders do not see an array. -/
theorem held_setArray {arr : SizedArray} {h : Holder} (other : h ≠ .array i) :
    (s.setArray i arr).held E h = s.held E h := by
  cases h with
  | array k =>
    have ne : k ≠ i := fun same => other (congrArg Holder.array same)
    simp only [Containers.held, Containers.setArray, Function.update_of_ne ne]
  | map j => rfl
  | tail j b => rfl

/-- The length of an array is none of its block's business. -/
theorem Containers.Sound.setLen (sound : s.Sound E) (len : Nat) :
    (s.setArray i { s.arrays i with len := len }).Sound E := by
  have same : (s.setArray i { s.arrays i with len := len }).held E = s.held E := by
    funext h
    by_cases here : h = .array i
    · subst here
      simp only [Containers.held, Containers.setArray, Function.update_self]
    · exact held_setArray here
  refine ⟨sound.consistent, by rw [same]; exact sound.holding, fun k nonnull => ?_, sound.maps⟩
  by_cases here : k = i
  · subst here
    simp only [Containers.setArray, Function.update_self] at nonnull ⊢
    exact sound.arrays k nonnull
  · simp only [Containers.setArray, Function.update_of_ne here] at nonnull ⊢
    exact sound.arrays k nonnull

/-- A new block for an array: the old one is passed with the size that it was asked for with. -/
theorem sizedArrayMove_sound {newcap allocator : Nat} (sound : s.Sound E) (nonzero : newcap ≠ 0)
    (moved : sizedArrayMove E s i newcap allocator = some s') : s'.Sound E := by
  obtain ⟨⟨t, result⟩, called, moved⟩ := Option.bind_eq_some_iff.mp moved
  obtain ⟨nonnull, moved⟩ := Option.ite_none_left_eq_some.mp moved
  cases moved
  obtain ⟨rfl, spec⟩ := vdRealloc_spec called
  have asked : arrayBytes (E.tsize i) newcap ≠ 0 := fun zero => nonnull (spec.null zero)
  have arrays := spec.arrays
  -- what the array holds is what is passed
  have own : (s.arrays i).a ≠ 0 → s.held E (.array i) =
      some ((s.arrays i).a - 24, arrayBytes (E.tsize i) (s.arrays i).cap) := fun there => if_neg there
  have passed : (if (s.arrays i).a = 0 then 0 else (s.arrays i).a - 24) ≠ 0 →
      lastObtained s.calls (if (s.arrays i).a = 0 then 0 else (s.arrays i).a - 24) = some (E.address,
        if sizedArrayCap (s.arrays i) = 0 then 0 else arrayBytes (E.tsize i)
          (sizedArrayCap (s.arrays i))) := by
    intro there
    by_cases null : (s.arrays i).a = 0
    · rw [if_pos null] at there
      exact absurd rfl there
    · obtain ⟨-, cap, -⟩ := sound.arrays i null
      rw [if_neg null, sizedArrayCap, if_neg null, if_neg cap]
      exact sound.holding.last _ _ _ (own null)
  have holding : Holding E.address t.calls t.heap.live ((t.setArray i ⟨result + 24,
      sizedArrayLen (s.arrays i), newcap,
      if (s.arrays i).a = 0 then E.address else (s.arrays i).allocator⟩).held E) := by
    refine spec.holding (h := .array i) sound asked ?_ ?_ fun h other x has => ?_
    · by_cases null : (s.arrays i).a = 0
      · exact Or.inl (if_pos null)
      · rw [if_neg null]
        exact Or.inr ⟨_, own null⟩
    · intro x has
      simp only [Containers.held, Containers.setArray, Function.update_self, Nat.add_sub_cancel] at has
      exact (Option.some.inj (Option.ite_none_left_eq_some.mp has).2).symm
    · rw [held_setArray other, spec.held] at has
      exact has
  refine ⟨(sound.logged spec).mpr passed, holding, fun k there => ?_, fun j m here => ?_⟩
  · by_cases here : k = i
    · subst here
      simp only [Containers.setArray, Function.update_self]
      refine ⟨Nat.le_add_left _ _, nonzero, ?_⟩
      split
      · rfl
      · next some_ => exact (sound.arrays k some_).2.2
    · simp only [Containers.setArray, Function.update_of_ne here, arrays] at there ⊢
      exact sound.arrays k there
  · exact sound.maps j m (by rw [← spec.maps]; exact here)

theorem sizedArrayGrow_cases {addlen mincap allocator : Nat}
    (grown : sizedArrayGrow E s i addlen mincap allocator = some s') :
    s' = s ∨ ∃ newcap, newcap ≠ 0 ∧ sizedArrayMove E s i newcap allocator = some s' := by
  rw [sizedArrayGrow] at grown
  generalize (if mincap < _ then _ else mincap) = needed at grown
  by_cases enough : needed ≤ sizedArrayCap (s.arrays i)
  · rw [if_pos enough] at grown
    exact Or.inl (Option.some.inj grown).symm
  · rw [if_neg enough] at grown
    exact Or.inr ⟨_, sizedGrowCap_ne_zero _ _, grown⟩

/-- **`vd_array_grow`** passes the size that it asked for. -/
theorem sizedArrayGrow_sound {addlen mincap allocator : Nat} (sound : s.Sound E)
    (grown : sizedArrayGrow E s i addlen mincap allocator = some s') : s'.Sound E := by
  rcases sizedArrayGrow_cases grown with rfl | ⟨newcap, nonzero, moved⟩
  · exact sound
  · exact sizedArrayMove_sound sound nonzero moved

/-- **`VD_ARRAY_ADDN`** does too. -/
theorem sizedArrayAddn_sound {n : Nat} (sound : s.Sound E) (added : sizedArrayAddn E s i n = some s') :
    s'.Sound E := by
  obtain ⟨t, grown, rfl⟩ := Option.map_eq_some_iff.mp added
  refine Containers.Sound.setLen ?_ _
  split at grown
  · exact sizedArrayGrow_sound sound grown
  · cases grown
    exact sound

/-- **`VD_ARRAY_DEINIT`** never matches: it leaves the header out. -/
theorem sizedArrayDeinit_inconsistent (sound : s.Sound E) (done : sizedArrayDeinit E s i = some s') :
    ¬ Consistent s'.calls := by
  obtain ⟨nonnull, done⟩ := Option.ite_none_left_eq_some.mp done
  obtain ⟨⟨t, result⟩, called, rfl⟩ := Option.map_eq_some_iff.mp done
  obtain ⟨-, spec⟩ := vdRealloc_spec called
  have own : s.held E (.array i) =
      some ((s.arrays i).a - 24, arrayBytes (E.tsize i) (s.arrays i).cap) := if_neg nonnull
  intro consistent
  have sizes : arrayBytes (E.tsize i) (s.arrays i).cap = arrayDeinitBytes (E.tsize i) (s.arrays i).cap :=
    sound.size_eq own ((sound.logged spec).mp consistent)
  rw [arrayBytes, arrayDeinitBytes, Nat.mul_comm (s.arrays i).cap] at sizes
  omega

end Arrays

/-! ### Maps -/

section Maps

variable {E : ContainersEnv} {s s' : Containers} {j : Nat}

/-- A holder that is no part of a map does not see it. -/
theorem held_setMap {m : Option SizedMap} {h : Holder} (table : h ≠ .map j)
    (tails : ∀ b, h ≠ .tail j b) :
    (s.setMap j m).held E h = s.held E h := by
  cases h with
  | array i => rfl
  | map k =>
    have ne : k ≠ j := fun same => table (congrArg Holder.map same)
    simp only [Containers.held, Containers.setMap, Function.update_of_ne ne]
  | tail k b =>
    have ne : k ≠ j := fun same => tails b (congrArg (Holder.tail · b) same)
    simp only [Containers.held, Containers.setMap, Function.update_of_ne ne]

/-- Maps stay as they should be when one is assigned that is. -/
theorem intact_setMap {m : Option SizedMap} (intact : ∀ k m', s.maps k = some m' → m'.map.Intact E)
    (new : ∀ m', m = some m' → m'.map.Intact E) :
    ∀ k m', (s.setMap j m).maps k = some m' → m'.map.Intact E := by
  intro k m' here
  by_cases same : k = j
  · subst same
    simp only [Containers.setMap, Function.update_self] at here
    exact new m' here
  · simp only [Containers.setMap, Function.update_of_ne same] at here
    exact intact k m' here

theorem strmapBytes_ne_zero (tsize cap : Nat) : strmapBytes tsize cap ≠ 0 :=
  (Nat.lt_of_lt_of_le (by decide) (Nat.le_add_right 24 _)).ne'

/-- A new map has bins that are not used. -/
theorem strmapInit_intact (tsize : Nat) :
    (strmapInit E.address tsize strmapDefaultCap E.behind).Intact E := by
  obtain ⟨pos, le⟩ := reducedCap_bounds (show 2 ≤ strmapDefaultCap by decide)
  have bins : ∀ b < strmapDefaultCap,
      (strmapInit E.address tsize strmapDefaultCap E.behind).bins b = .zero tsize :=
    fun b inside => if_pos inside
  refine ⟨rfl, rfl, pos, le, fun b inside => ?_, fun b inside long => ?_, fun b inside _ => ?_⟩
  · rw [bins b inside]
    rfl
  · rw [bins b inside] at long
    exact absurd long (Nat.not_lt_zero _)
  · rw [bins b inside]
    rfl

/-- A set leaves a map with bins that link nowhere. -/
theorem StrMap.Intact.set {t t' : StrMapState} {key : List UInt8} (intact : t.map.Intact E)
    (header : t'.map = { t.map with bins := t'.map.bins }) (keys : SetKeys E.alloc t t' key) :
    t'.map.Intact E := by
  have capTotal : t'.map.capTotal = t.map.capTotal := by rw [header]
  have cap : t'.map.cap = t.map.cap := by rw [header]
  have allocator : t'.map.allocator = t.map.allocator := by rw [header]
  -- what is true of a bin that has its key is true of it afterwards
  have kept : ∀ b < t.map.capTotal, (t.map.bins b).SameKey (t'.map.bins b) →
      (t'.map.bins b).next = none ∧ (43 < (t'.map.bins b).keyLen → (t'.map.bins b).used = true) ∧
        ((t'.map.bins b).keyLen ≤ 43 → (t'.map.bins b).keyRest = 0) := by
    intro b inside same
    rw [same.next, same.keyLen, same.used, same.keyRest]
    exact ⟨intact.next b inside, intact.used b inside, intact.short b inside⟩
  have all : ∀ b < t.map.capTotal, (t'.map.bins b).next = none ∧
      (43 < (t'.map.bins b).keyLen → (t'.map.bins b).used = true) ∧
        ((t'.map.bins b).keyLen ≤ 43 → (t'.map.bins b).keyRest = 0) := by
    intro b inside
    cases keys with
    | none _ same => exact kept b inside (same b)
    | one i free same used next keyLen gets =>
      by_cases here : b = i
      · subst here
        refine ⟨next, fun _ => used, fun short => ?_⟩
        cases gets with
        | short le heap keyRest =>
          rw [keyRest]
          refine intact.short b inside (Nat.not_lt.mp fun long => ?_)
          rw [intact.used b inside long] at free
          cases free
        | long lt => exact absurd (keyLen ▸ short) (Nat.not_le.mpr lt)
      · exact kept b inside (same b here)
  refine ⟨allocator.trans intact.allocator, capTotal.trans intact.capTotal, ?_, ?_, fun b inside => ?_,
    fun b inside => ?_, fun b inside => ?_⟩
  · rw [cap]
    exact intact.capPos
  · rw [cap, capTotal]
    exact intact.capLe
  · exact (all b (capTotal ▸ inside)).1
  · exact (all b (capTotal ▸ inside)).2.1
  · exact (all b (capTotal ▸ inside)).2.2

/-- **`VD_STRMAP_INIT`** obtains the table. -/
theorem sizedMapInit_sound (sound : s.Sound E) (made : sizedMapInit E s j = some s') : s'.Sound E := by
  obtain ⟨⟨t, result⟩, called, rfl⟩ := Option.map_eq_some_iff.mp made
  obtain ⟨-, spec⟩ := vdRealloc_spec called
  have intact := strmapInit_intact (E := E) (E.valueSize j)
  have holding : Holding E.address t.calls t.heap.live ((t.setMap j (some ⟨result,
      strmapInit E.address (E.valueSize j) strmapDefaultCap E.behind⟩)).held E) := by
    refine spec.holding (h := .map j) sound (strmapBytes_ne_zero _ _) (Or.inl rfl) ?_
      fun h other x has => ?_
    · intro x has
      simp only [Containers.held, Containers.setMap, Function.update_self] at has
      exact (Option.some.inj has).symm
    · by_cases tail : ∃ b, h = .tail j b
      · obtain ⟨b, rfl⟩ := tail
        simp only [Containers.held, Containers.setMap, Function.update_self, Option.bind_some] at has
        obtain ⟨⟨inside, long⟩, -⟩ := Option.ite_none_right_eq_some.mp has
        rw [show StrMap.bins _ b = .zero (E.valueSize j) from if_pos inside] at long
        exact absurd long (Nat.not_lt_zero _)
      · rw [held_setMap other fun b same => tail ⟨b, same⟩, spec.held] at has
        exact has
  refine ⟨(sound.logged spec).mpr fun nonnull => absurd rfl nonnull, holding, ?_, ?_⟩
  · intro i nonnull
    have arrays := sound.arrays i
    rw [← spec.arrays] at arrays
    exact arrays nonnull
  · refine intact_setMap (fun k m here => sound.maps k m (by rw [← spec.maps]; exact here)) ?_
    rintro m' ⟨⟩
    exact intact

/-- A map is assigned, and nothing is held that was not held. -/
theorem Containers.Sound.assign {m : Option SizedMap} (sound : s.Sound E)
    (fewer : ∀ h x, (s.setMap j m).held E h = some x → s.held E h = some x)
    (new : ∀ m', m = some m' → m'.map.Intact E) : (s.setMap j m).Sound E where
  consistent := sound.consistent
  holding := sound.holding.mono fewer
  arrays := sound.arrays
  maps := intact_setMap sound.maps new

/-- A map gets bins: a holder that is none of its bins does not see it, nor does a bin that
has its key. -/
theorem held_setBins {m : SizedMap} {map : StrMap} (here : s.maps j = some m)
    (capTotal : map.capTotal = m.map.capTotal) {h : Holder}
    (same : ∀ b, h = .tail j b → (map.bins b).keyLen = (m.map.bins b).keyLen ∧
      (map.bins b).keyRest = (m.map.bins b).keyRest) :
    (s.setMap j (some { m with map := map })).held E h = s.held E h := by
  by_cases table : h = .map j
  · subst table
    simp only [Containers.held, Containers.setMap, Function.update_self, here, Option.map_some]
  · by_cases tail : ∃ b, h = .tail j b
    · obtain ⟨b, rfl⟩ := tail
      obtain ⟨keyLen, keyRest⟩ := same b rfl
      simp only [Containers.held, Containers.setMap, Function.update_self, here, Option.bind_some,
        capTotal, keyLen, keyRest]
    · exact held_setMap table fun b is => tail ⟨b, is⟩

/-- The call for a tail, whose block is the newest one. -/
theorem tailCall_spec {heap' heap'' : BlockHeap} {allocator p size : Nat}
    (granted : E.alloc.alloc s.heap size = some (heap', p)) (some_ : size ≠ 0)
    (outstanding : heap''.live = (p, size) :: s.heap.live) (same : allocator = E.address) :
    CallSpec E s 0 0 size
      { s with heap := heap'', calls := s.calls ++ [⟨allocator, 0, 0, size, p⟩] } p where
  arrays := rfl
  maps := rfl
  calls := by rw [same]
  null zero := absurd zero some_
  granted _ := by
    refine ⟨E.alloc.nonnull granted, ?_, fun q n member _ pos => ⟨?_, ?_⟩⟩
    · show _ ∈ heap''.live
      rw [outstanding]
      exact List.mem_cons_self
    · show _ ∈ heap''.live
      rw [outstanding]
      exact List.mem_cons_of_mem _ member
    · exact BlockAlloc.fresh granted (Nat.pos_of_ne_zero some_) member pos

/-- **`VD_STRMAP_SET`** obtains the tail of a long key. -/
theorem sizedMapSet_sound {key value : List UInt8} (sound : s.Sound E)
    (set : sizedMapSet E s j key value = some s') : s'.Sound E := by
  obtain ⟨m, here, set⟩ := Option.bind_eq_some_iff.mp set
  obtain ⟨⟨t, result⟩, ran, rfl⟩ := Option.map_eq_some_iff.mp set
  obtain ⟨header, keys⟩ := strmapSet_bins ran
  have intact : ∀ m', some { m with map := t.map } = some m' → m'.map.Intact E := by
    rintro m' ⟨⟩
    exact (sound.maps j m here).set header keys
  have capTotal : t.map.capTotal = m.map.capTotal := by rw [header]
  -- without a block the calls are as before
  have quiet : t.heap = s.heap → { s with
      heap := t.heap
      calls := s.calls ++ (t.heap.live.take (t.heap.live.length - s.heap.live.length)).map fun block =>
        ⟨m.map.allocator, 0, 0, block.2, block.1⟩ } = s := by
    intro heap
    rw [heap, Nat.sub_self, List.take_zero, List.map_nil, List.append_nil]
  cases keys with
  | none heap same =>
    dsimp only
    rw [quiet heap]
    refine sound.assign (fun h x has => ?_) intact
    rw [held_setBins here capTotal fun b _ => ⟨(same b).keyLen, (same b).keyRest⟩] at has
    exact has
  | one i free same used next keyLen gets =>
    -- only the bin that gets the key holds something else
    have others : ∀ h ≠ Holder.tail j i, (s.setMap j (some { m with map := t.map })).held E h =
      s.held E h :=
      fun h other => held_setBins here capTotal fun b is =>
        have key := same b fun bin => other (bin ▸ is)
        ⟨key.keyLen, key.keyRest⟩
    have own : ∀ x, (s.setMap j (some { m with map := t.map })).held E (.tail j i) = some x →
        43 < key.length ∧ x = ((t.map.bins i).keyRest, key.length - 43) := by
      intro x has
      simp only [Containers.held, Containers.setMap, Function.update_self, Option.bind_some,
        keyLen] at has
      obtain ⟨⟨-, long⟩, is⟩ := Option.ite_none_right_eq_some.mp has
      exact ⟨long, (Option.some.inj is).symm⟩
    cases gets with
    | short le heap =>
      dsimp only
      rw [quiet heap]
      refine sound.assign (fun h x has => ?_) intact
      by_cases other : h = .tail j i
      · subst other
        exact absurd (own x has).1 (Nat.not_lt.mpr le)
      · rw [others h other] at has
        exact has
    | long lt heap' granted live =>
      have some_ : key.length - 43 ≠ 0 := (Nat.sub_pos_of_lt lt).ne'
      have outstanding : t.heap.live = ((t.map.bins i).keyRest, key.length - 43) :: s.heap.live :=
        live.trans (E.alloc.live granted)
      have obtained : t.heap.live.take (t.heap.live.length - s.heap.live.length) =
          [((t.map.bins i).keyRest, key.length - 43)] := by
        rw [outstanding, List.length_cons, Nat.add_sub_cancel_left, List.take_succ_cons, List.take_zero]
      have spec := tailCall_spec granted some_ outstanding (sound.maps j m here).allocator
      dsimp only
      rw [obtained, List.map_singleton]
      have holding : Holding E.address _ t.heap.live
        ((s.setMap j (some { m with map := t.map })).held E) :=
        spec.holding sound some_ (Or.inl rfl) (fun x has => (own x has).2)
          fun h other x has => (others h other).symm.trans has
      exact ⟨(sound.logged spec).mpr fun nonnull => absurd rfl nonnull, holding, sound.arrays,
        intact_setMap sound.maps intact⟩

/-- A search in a map to which nothing was given back finds the home bin of the key, if any. -/
theorem StrMap.Intact.found {map : StrMap} (intact : map.Intact E) {heap : BlockHeap} {key : List UInt8}
    {b : Nat} (found : findBin ⟨map, heap, []⟩ key = some (some b)) :
    b < map.capTotal ∧ (map.bins b).keyLen = key.length := by
  have inside : map.home key < map.capTotal :=
    Nat.lt_of_lt_of_le (Nat.mod_lt _ intact.capPos) intact.capLe
  rw [findBin_unlinked (s := ⟨map, heap, []⟩) (intact.next _ inside)] at found
  obtain ⟨⟨-, check⟩, same⟩ := Option.ite_none_right_eq_some.mp (Option.some.inj found)
  cases same
  refine ⟨inside, ?_⟩
  unfold checkKey at check
  split at check
  · cases check
  · next same => exact not_not.mp same

/-- A bin that is let go of keeps what it has of its key. -/
theorem unuseBin_key (t : StrMapState) (b c : Nat) :
    ((unuseBin t b).map.bins c).keyLen = (t.map.bins c).keyLen ∧
      ((unuseBin t b).map.bins c).keyRest = (t.map.bins c).keyRest := by
  by_cases here : c = b
  · subst here
    simp only [unuseBin, Function.update_self, and_self]
  · simp only [unuseBin, Function.update_of_ne here, and_self]

/-- A bin with a short key may be let go of. -/
theorem StrMap.Intact.unuse {t : StrMapState} (intact : t.map.Intact E) {b : Nat}
    (short : (t.map.bins b).keyLen ≤ 43) : (unuseBin t b).map.Intact E := by
  refine ⟨intact.allocator, intact.capTotal, intact.capPos, intact.capLe, fun c inside => ?_,
    fun c inside long => ?_, fun c inside le => ?_⟩
  · have next := intact.next c inside
    by_cases here : c = b
    · subst here
      simpa only [unuseBin, Function.update_self] using next
    · simpa only [unuseBin, Function.update_of_ne here] using next
  · rw [(unuseBin_key t b c).1] at long
    by_cases here : c = b
    · subst here
      exact absurd short (Nat.not_le.mpr long)
    · simpa only [unuseBin, Function.update_of_ne here] using intact.used c inside long
  · rw [(unuseBin_key t b c).1] at le
    rw [(unuseBin_key t b c).2]
    exact intact.short c inside le

/-- **`VD_STRMAP_DEL`** gives nothing back if the key is not found, or short. -/
theorem sizedMapDel_sound {key : List UInt8} (sound : s.Sound E) (keeps : (SizedOp.mapDel j key).Keeps s)
    (deleted : sizedMapDel E s j key = some s') : s'.Sound E := by
  obtain ⟨m, here, deleted⟩ := Option.bind_eq_some_iff.mp deleted
  obtain ⟨⟨t, result⟩, ran, rfl⟩ := Option.map_eq_some_iff.mp deleted
  have intact := sound.maps j m here
  -- nothing is freed, and the heap is as before
  have quiet : t.freed = [] → t.heap = s.heap → { s with
      heap := { t.heap with live := t.heap.live.filter fun block => !t.freed.any fun f => f.1 == block.1 }
      calls := s.calls ++ t.freed.map fun f => ⟨m.map.allocator, f.1, f.2, 0, 0⟩ } = s := by
    intro freed heap
    rw [freed, heap, List.map_nil, List.append_nil]
    have all : (s.heap.live.filter fun block => !([] : List (Nat × Nat)).any fun f => f.1 == block.1) =
        s.heap.live := List.filter_eq_self.mpr fun block _ => rfl
    rw [all]
  rcases strmapDel_bins ran with ⟨-, rfl⟩ | ⟨b, found, rfl⟩
  · dsimp only
    rw [quiet rfl rfl]
    refine sound.assign (fun h x has => ?_) fun m' new => ?_
    · rw [held_setBins here rfl fun b _ => ⟨rfl, rfl⟩] at has
      exact has
    · cases new
      exact intact
  · obtain ⟨inside, keyLen⟩ := intact.found found
    have short : key.length ≤ 43 := Nat.not_lt.mp fun long => keeps m here long b found
    have rest : (m.map.bins b).keyRest = 0 := intact.short b inside (keyLen.trans_le short)
    dsimp only
    rw [quiet (if_pos rest) rfl]
    refine sound.assign (fun h x has => ?_) fun m' new => ?_
    · have same := held_setBins (E := E) (h := h) here
        (rfl : (unuseBin ⟨m.map, s.heap, []⟩ b).map.capTotal = m.map.capTotal)
          fun c _ => unuseBin_key _ b c
      exact same.symm.trans has
    · cases new
      exact intact.unuse (keyLen.trans_le short)

/-- **`VD_STRMAP_DEL` of a long key** never matches: the length of the tail is passed negated. -/
theorem sizedMapDel_inconsistent {key : List UInt8} (sound : s.Sound E) (length : key.length < 2 ^ 32)
    (gives : ¬ (SizedOp.mapDel j key).Keeps s) (deleted : sizedMapDel E s j key = some s') :
    ¬ Consistent s'.calls := by
  obtain ⟨m, here, deleted⟩ := Option.bind_eq_some_iff.mp deleted
  obtain ⟨⟨t, result⟩, ran, rfl⟩ := Option.map_eq_some_iff.mp deleted
  have gives : ∃ b, 43 < key.length ∧ findBin ⟨m.map, s.heap, []⟩ key = some (some b) := by
    by_contra none
    refine gives fun m' same long b found => none ⟨b, long, ?_⟩
    cases here.symm.trans same
    exact found
  obtain ⟨b, long, found⟩ := gives
  obtain ⟨inside, keyLen⟩ := (sound.maps j m here).found found
  have own : s.held E (.tail j b) = some ((m.map.bins b).keyRest, key.length - 43) := by
    simp only [Containers.held, here, Option.bind_some, keyLen]
    exact if_pos ⟨inside, long⟩
  obtain ⟨pos, -⟩ := sound.holding.pos _ _ _ own
  have freed : t.freed = [((m.map.bins b).keyRest, (43 + 2 ^ 64 - key.length) % 2 ^ 64)] := by
    rcases strmapDel_bins ran with ⟨not, -⟩ | ⟨c, same, rfl⟩
    · cases found.symm.trans not
    · cases found.symm.trans same
      rw [← keyLen]
      exact if_neg pos.ne'
  intro consistent
  have logged : Consistent (s.calls ++ t.freed.map fun f => ⟨m.map.allocator, f.1, f.2, 0, 0⟩) :=
    consistent
  rw [freed, List.map_singleton, consistent_snoc] at logged
  have sizes : key.length - 43 = (43 + 2 ^ 64 - key.length) % 2 ^ 64 := sound.size_eq own logged.2
  omega

/-- **`VD_STRMAP_DEINIT`** never matches: it passes the number of bins. -/
theorem sizedMapDeinit_inconsistent (sound : s.Sound E) (done : sizedMapDeinit E s j = some s') :
    ¬ Consistent s'.calls := by
  obtain ⟨m, here, done⟩ := Option.bind_eq_some_iff.mp done
  obtain ⟨⟨t, result⟩, called, rfl⟩ := Option.map_eq_some_iff.mp done
  obtain ⟨-, spec⟩ := vdRealloc_spec called
  have own : s.held E (.map j) = some (m.header, strmapBytes (E.valueSize j) strmapDefaultCap) := by
    simp only [Containers.held, here, Option.map_some]
  intro consistent
  have sizes : strmapBytes (E.valueSize j) strmapDefaultCap = m.map.capTotal :=
    sound.size_eq own ((sound.logged spec).mp consistent)
  rw [(sound.maps j m here).capTotal, strmapBytes, strmapDefaultCap] at sizes
  -- the bins are a multiple of 2048 bytes, and the header is 24
  omega

end Maps

/-! ### Runs -/

section Runs

variable {E : ContainersEnv} {s s' : Containers} {op : SizedOp}

/-- Calls are logged one behind the other. -/
theorem sizedArrayGrow_calls {i addlen mincap allocator : Nat}
    (grown : sizedArrayGrow E s i addlen mincap allocator = some s') : s.calls <+: s'.calls := by
  rcases sizedArrayGrow_cases grown with rfl | ⟨newcap, -, moved⟩
  · exact List.prefix_rfl
  · obtain ⟨⟨t, result⟩, called, moved⟩ := Option.bind_eq_some_iff.mp moved
    obtain ⟨-, moved⟩ := Option.ite_none_left_eq_some.mp moved
    cases moved
    exact ⟨_, (vdRealloc_spec called).2.calls.symm⟩

theorem sizedStep_calls (stepped : sizedStep E s op = some s') : s.calls <+: s'.calls := by
  cases op with
  | arrayInit i => exact sizedArrayGrow_calls stepped
  | arrayGrow i addlen mincap => exact sizedArrayGrow_calls stepped
  | arrayAddn i n =>
    obtain ⟨t, grown, rfl⟩ := Option.map_eq_some_iff.mp stepped
    split at grown
    · have front : s.calls <+: t.calls := sizedArrayGrow_calls grown
      exact front
    · cases grown
      exact List.prefix_rfl
  | arrayRemove i n =>
    obtain ⟨-, same⟩ := Option.ite_none_right_eq_some.mp stepped
    cases same
    exact List.prefix_rfl
  | arrayDeinit i =>
    obtain ⟨-, done⟩ := Option.ite_none_left_eq_some.mp stepped
    obtain ⟨⟨t, result⟩, called, rfl⟩ := Option.map_eq_some_iff.mp done
    exact ⟨_, (vdRealloc_spec called).2.calls.symm⟩
  | mapInit j =>
    obtain ⟨⟨t, result⟩, called, rfl⟩ := Option.map_eq_some_iff.mp stepped
    exact ⟨_, (vdRealloc_spec called).2.calls.symm⟩
  | mapSet j key value =>
    obtain ⟨m, -, set⟩ := Option.bind_eq_some_iff.mp (Option.ite_none_right_eq_some.mp stepped).2
    obtain ⟨⟨t, result⟩, -, rfl⟩ := Option.map_eq_some_iff.mp set
    exact List.prefix_append _ _
  | mapDel j key =>
    obtain ⟨m, -, deleted⟩ := Option.bind_eq_some_iff.mp (Option.ite_none_right_eq_some.mp stepped).2
    obtain ⟨⟨t, result⟩, -, rfl⟩ := Option.map_eq_some_iff.mp deleted
    exact List.prefix_append _ _
  | mapDeinit j =>
    obtain ⟨m, -, done⟩ := Option.bind_eq_some_iff.mp stepped
    obtain ⟨⟨t, result⟩, called, rfl⟩ := Option.map_eq_some_iff.mp done
    exact ⟨_, (vdRealloc_spec called).2.calls.symm⟩

/-- In front of a consistent log there is a consistent log. -/
theorem sizedRun_front {ops : List SizedOp} (ran : run (sizedStep E) s ops = some s')
    (consistent : Consistent s'.calls) : Consistent s.calls := by
  have front : s.calls <+: s'.calls := run_invariant (I := fun t => s.calls <+: t.calls)
    (fun t op t' before stepped => before.trans (sizedStep_calls stepped)) ran List.prefix_rfl
  obtain ⟨later, split⟩ := front
  rw [← split] at consistent
  exact consistent.front

/-- **An operation that gives nothing back** passes sizes that match. -/
theorem sizedStep_sound (sound : s.Sound E) (keeps : op.Keeps s) (stepped : sizedStep E s op = some s') :
    s'.Sound E := by
  cases op with
  | arrayInit i => exact sizedArrayGrow_sound sound stepped
  | arrayGrow i addlen mincap => exact sizedArrayGrow_sound sound stepped
  | arrayAddn i n => exact sizedArrayAddn_sound sound stepped
  | arrayRemove i n =>
    obtain ⟨-, same⟩ := Option.ite_none_right_eq_some.mp stepped
    cases same
    exact sound.setLen _
  | arrayDeinit i =>
    obtain ⟨nonnull, -⟩ := Option.ite_none_left_eq_some.mp stepped
    exact absurd keeps nonnull
  | mapInit j => exact sizedMapInit_sound sound stepped
  | mapSet j key value => exact sizedMapSet_sound sound (Option.ite_none_right_eq_some.mp stepped).2
  | mapDel j key => exact sizedMapDel_sound sound keeps (Option.ite_none_right_eq_some.mp stepped).2
  | mapDeinit j =>
    obtain ⟨m, here, -⟩ := Option.bind_eq_some_iff.mp stepped
    exact absurd (here.symm.trans keeps) (Option.some_ne_none m)

/-- **An operation that gives something back** passes a size that does not match. -/
theorem sizedStep_inconsistent (sound : s.Sound E) (gives : ¬ op.Keeps s)
    (stepped : sizedStep E s op = some s') : ¬ Consistent s'.calls := by
  cases op with
  | arrayDeinit i => exact sizedArrayDeinit_inconsistent sound stepped
  | mapDel j key =>
    obtain ⟨length, deleted⟩ := Option.ite_none_right_eq_some.mp stepped
    exact sizedMapDel_inconsistent sound length gives deleted
  | mapDeinit j => exact sizedMapDeinit_inconsistent sound stepped
  | arrayInit _ | arrayGrow | arrayAddn | arrayRemove | mapInit _ | mapSet => exact absurd trivial gives

/-- Nothing holds a block before the first operation. -/
theorem noContainers_sound (E : ContainersEnv) (heap : BlockHeap) : (noContainers heap).Sound E := by
  have nothing : ∀ h x, (noContainers heap).held E h ≠ some x := by
    intro h x has
    cases h with
    | array i => exact absurd has (Option.some_ne_none x).symm
    | map j => exact absurd has (Option.some_ne_none x).symm
    | tail j b => exact absurd has (Option.some_ne_none x).symm
  exact ⟨consistent_nil, ⟨fun h p n has => absurd has (nothing h _), fun h p n has => absurd has
    (nothing h _),
    fun h p n has => absurd has (nothing h _), fun h h' p n m has => absurd has (nothing h _)⟩,
    fun i nonnull => absurd rfl nonnull, fun j m here => absurd here (Option.some_ne_none m).symm⟩

/-- **Sizes match in the runs in which nothing is given back**, and in no others. -/
theorem sizedRun_consistent : ∀ {ops : List SizedOp} {s s' : Containers}, s.Sound E →
    run (sizedStep E) s ops = some s' →
      (Consistent s'.calls ↔ Along (sizedStep E) (fun s op => op.Keeps s) s ops)
  | [], s, _, sound, ran => by
    cases ran
    exact iff_of_true sound.consistent trivial
  | op :: rest, s, s', sound, ran => by
    obtain ⟨next, stepped, later⟩ := run_cons_some.mp ran
    by_cases keeps : op.Keeps s
    · rw [sizedRun_consistent (sizedStep_sound sound keeps stepped) later]
      constructor
      · intro along
        refine ⟨keeps, fun next' stepped' => ?_⟩
        cases stepped.symm.trans stepped'
        exact along
      · exact fun along => along.2 next stepped
    · have bad := sizedStep_inconsistent sound keeps stepped
      exact iff_of_false (fun consistent => bad (sizedRun_front later consistent))
        fun along => keeps along.1

theorem containers_match (E : ContainersEnv) (heap : BlockHeap) (ops : List SizedOp) (s : Containers)
    (ran : run (sizedStep E) (noContainers heap) ops = some s) :
    Consistent s.calls ↔ Along (sizedStep E) (fun s op => op.Keeps s) (noContainers heap) ops :=
  sizedRun_consistent (noContainers_sound E heap) ran

/-- Arrays and maps of four bytes. -/
def fourBytes : ContainersEnv := ⟨.bump, 4096, fun _ => 4, fun _ => 4, fun _ => .zero 4⟩

theorem containers_match_grown : ∃ s,
    run (sizedStep fourBytes) (noContainers ⟨fun _ => 0, []⟩)
      [.arrayInit 0, .arrayAddn 0 3, .arrayAddn 0 9, .arrayDeinit 0] = some s ∧
    (Consistent s.calls ↔ Along (sizedStep fourBytes) (fun s op => op.Keeps s)
      (noContainers ⟨fun _ => 0, []⟩) [.arrayInit 0, .arrayAddn 0 3, .arrayAddn 0 9, .arrayDeinit 0]) :=
  ⟨_, rfl, containers_match fourBytes _ _ _ rfl⟩

/-- **An array that is deinitialised** is given back with 24 bytes less than it was obtained with. -/
theorem array_deinit_mismatched : ∃ s,
    run (sizedStep fourBytes) (noContainers ⟨fun _ => 0, []⟩) [.arrayInit 0, .arrayDeinit 0] = some s ∧
      s.calls = [⟨4096, 0, 0, 40, 1⟩, ⟨4096, 1, 16, 0, 0⟩] ∧ ¬ Consistent s.calls := by
  refine ⟨_, rfl, rfl, fun consistent => ?_⟩
  have matched := consistent [⟨4096, 0, 0, 40, 1⟩] ⟨4096, 1, 16, 0, 0⟩ [] rfl Nat.one_ne_zero
  exact absurd matched (by decide)

end Runs

end Vaudou
