/-
**Type ids in the registry of `vd_meta.h`.**

A descriptor with id 0 gets the counter's value, another one keeps its own, and the counter does not
look at the ids that callers gave.

* `registered_ids_mem` — the ids in use are those given and the values the counter has had.
* **`Identified.iff_nodup`** — ids and names lead back to the types exactly when both are distinct.
* **`registered_ids_nodup`** — the ids of a run are distinct exactly when the counter never comes to an
  id that was given before.
* **`ids_identify_iff`** — so a run keeps ids identifying types exactly then, and with names of its own.
-/

import Mathlib.Data.List.Induction
import Mathlib.Data.List.Nodup
import Vaudou.Meta.IntrusiveArrays
import Vaudou.Meta.Registry

namespace Vaudou

open Vaudou.Memory Vaudou.Text

/-! ### Runs of registrations -/

section Runs

/-- The types that `vd_meta_init` registers; the flag is `VD_META_OPTION_DEFINE_DEFAULT_TYPES`. -/
def definedTypes (defineDefaultTypes : Bool) : List MetaDescriptor :=
  if defineDefaultTypes then metaDefaultTypes else []

/-- `vd_meta_init`. -/
def metaInit (props : IntrusiveArrayProps) (defineDefaultTypes : Bool) : MetaRegistry :=
  (metaRegisterAll (metaEmpty props) (definedTypes defineDefaultTypes)).1

/-- The descriptors of a run, each with the id that `vd_meta_register` returned for it. -/
def registered : MetaRegistry → List MetaDescriptor → List (MetaDescriptor × Nat)
  | _, [] => []
  | reg, descriptor :: rest =>
    (descriptor, (metaRegister reg descriptor).2) :: registered (metaRegister reg descriptor).1 rest

/-- How many of the descriptors ask for a new id. -/
def automatics (descriptors : List MetaDescriptor) : Nat :=
  descriptors.countP fun descriptor => descriptor.id == 0

/-- **Ids identify types**: they are distinct, a name leads to its id, and an id to its descriptor. -/
structure Identified (reg : MetaRegistry) (types : List (MetaDescriptor × Nat)) : Prop where
  distinct : (types.map (·.2)).Nodup
  names : ∀ type ∈ types, metaGetId reg type.1.name = type.2
  descriptors : ∀ type ∈ types, metaGetDescriptor reg type.2 = some { type.1 with id := type.2 }

/-- A run as callers should make it: ids are words, an id that a caller gives is of no type at that
moment, and names are distinct. -/
structure Admissible (reg : MetaRegistry) (descriptors : List MetaDescriptor) : Prop where
  word : ∀ descriptor ∈ descriptors, descriptor.id < 2 ^ 64
  unused : ∀ before descriptor, before ++ [descriptor] <+: descriptors → descriptor.id ≠ 0 →
    metaGetDescriptor (metaRegisterAll reg before).1 descriptor.id = none
  names : (descriptors.map (·.name)).Nodup

/-- **The counter comes to no id that was given before**, and not round to its first ones. -/
def CounterClear (descriptors : List MetaDescriptor) : Prop :=
  ∀ before descriptor, before ++ [descriptor] <+: descriptors → descriptor.id = 0 →
    automatics before + 1 ∉ before.map (·.id) ∧ automatics before < 2 ^ 64

end Runs

/-! ### What a run assigns -/

section Assigned

variable {reg : MetaRegistry}

theorem metaRegisterAll_append : ∀ (first later : List MetaDescriptor) (reg : MetaRegistry),
    metaRegisterAll reg (first ++ later) =
      ((metaRegisterAll (metaRegisterAll reg first).1 later).1,
        (metaRegisterAll reg first).2 ++ (metaRegisterAll (metaRegisterAll reg first).1 later).2)
  | [], _, _ => rfl
  | descriptor :: first, later, reg => by
    have rest := metaRegisterAll_append first later (metaRegister reg descriptor).1
    show ((metaRegisterAll _ (first ++ later)).1, _ :: (metaRegisterAll _ (first ++ later)).2) = _
    rw [rest]
    rfl

theorem registered_append : ∀ (first later : List MetaDescriptor) {reg : MetaRegistry},
    registered reg (first ++ later) =
      registered reg first ++ registered (metaRegisterAll reg first).1 later
  | [], _, _ => rfl
  | descriptor :: first, later, reg => by
    show _ :: registered _ (first ++ later) = _
    rw [registered_append first later]
    rfl

/-- What the tables got is what was registered, under the ids that were returned. -/
theorem metaRegisterAll_copies : ∀ (descriptors : List MetaDescriptor) {reg : MetaRegistry},
    (metaRegisterAll reg descriptors).2 =
      (registered reg descriptors).map fun type => { type.1 with id := type.2 }
  | [], _ => rfl
  | descriptor :: rest, reg => by
    have copy : copyDescriptor reg descriptor =
        { descriptor with id := (metaRegister reg descriptor).2 } := by
      show _ = { descriptor with id := (copyDescriptor reg descriptor).id }
      unfold copyDescriptor
      split <;> rfl
    show copyDescriptor reg descriptor :: (metaRegisterAll _ rest).2 = _
    rw [copy, metaRegisterAll_copies rest]
    rfl

theorem registered_names : ∀ (descriptors : List MetaDescriptor) {reg : MetaRegistry},
    (registered reg descriptors).map (·.1) = descriptors
  | [], _ => rfl
  | descriptor :: rest, reg => by
    show descriptor :: (registered _ rest).map (·.1) = _
    rw [registered_names rest]

/-- The counter's value after a run. -/
theorem metaRegisterAll_nextId : ∀ (descriptors : List MetaDescriptor) (reg : MetaRegistry),
    reg.nextId < 2 ^ 64 →
      (metaRegisterAll reg descriptors).1.nextId = (reg.nextId + automatics descriptors) % 2 ^ 64
  | [], reg, word => (Nat.mod_eq_of_lt word).symm
  | descriptor :: rest, reg, word => by
    have counter : (metaRegister reg descriptor).1.nextId =
        if descriptor.id = 0 then (reg.nextId + 1) % 2 ^ 64 else reg.nextId := rfl
    have count : automatics (descriptor :: rest) =
        automatics rest + if descriptor.id = 0 then 1 else 0 := by
      unfold automatics
      rw [List.countP_cons]
      simp only [beq_iff_eq]
    have later := metaRegisterAll_nextId rest (metaRegister reg descriptor).1
      (by rw [counter]; split <;> omega)
    show (metaRegisterAll _ rest).1.nextId = _
    rw [later, counter, count]
    split <;> omega

/-- One more registration on an empty registry: the id is the caller's or the counter's. -/
theorem registered_snoc (props : IntrusiveArrayProps) (before : List MetaDescriptor)
    (descriptor : MetaDescriptor) :
    registered (metaEmpty props) (before ++ [descriptor]) =
      registered (metaEmpty props) before ++ [(descriptor,
        if descriptor.id = 0 then (automatics before + 1) % 2 ^ 64 else descriptor.id)] := by
  have counter : (metaRegisterAll (metaEmpty props) before).1.nextId = (1 + automatics before) % 2 ^ 64 :=
    metaRegisterAll_nextId before _ (show 1 < 2 ^ 64 by decide)
  have id : (metaRegister (metaRegisterAll (metaEmpty props) before).1 descriptor).2 =
      if descriptor.id = 0 then (automatics before + 1) % 2 ^ 64 else descriptor.id := by
    show (copyDescriptor _ descriptor).id = _
    unfold copyDescriptor
    split
    · show (metaRegisterAll (metaEmpty props) before).1.nextId = _
      rw [counter, Nat.add_comm]
    · rfl
  rw [registered_append]
  show _ ++ [(descriptor, (metaRegister _ descriptor).2)] = _
  rw [id]

theorem automatics_snoc (before : List MetaDescriptor) (descriptor : MetaDescriptor) :
    automatics (before ++ [descriptor]) =
      automatics before + if descriptor.id = 0 then 1 else 0 := by
  unfold automatics
  rw [List.countP_append, List.countP_singleton]
  simp only [beq_iff_eq]

/-- **The ids in use** are those that were given and the values that the counter has had. -/
theorem registered_ids_mem (props : IntrusiveArrayProps) (descriptors : List MetaDescriptor) (id : Nat) :
    id ∈ (registered (metaEmpty props) descriptors).map (·.2) ↔
      (id ≠ 0 ∧ id ∈ descriptors.map (·.id)) ∨
        ∃ made < automatics descriptors, id = (made + 1) % 2 ^ 64 := by
  induction descriptors using List.reverseRecOn with
  | nil => simp [registered, automatics]
  | append_singleton before descriptor ih =>
    rw [registered_snoc, List.map_append, List.mem_append, ih, List.map_append, List.mem_append,
      automatics_snoc]
    simp only [List.map_cons, List.map_nil, List.mem_singleton]
    by_cases zero : descriptor.id = 0
    · rw [if_pos zero, if_pos zero, zero]
      constructor
      · rintro ((⟨pos, given⟩ | ⟨made, less, same⟩) | same)
        · exact .inl ⟨pos, .inl given⟩
        · exact .inr ⟨made, by omega, same⟩
        · exact .inr ⟨_, Nat.lt_succ_self _, same⟩
      · rintro (⟨pos, given | none⟩ | ⟨made, less, same⟩)
        · exact .inl (.inl ⟨pos, given⟩)
        · exact absurd none pos
        · rcases Nat.lt_succ_iff_lt_or_eq.mp less with less | last
          · exact .inl (.inr ⟨made, less, same⟩)
          · exact .inr (last ▸ same)
    · rw [if_neg zero, if_neg zero, Nat.add_zero]
      constructor
      · rintro ((⟨pos, given⟩ | counted) | same)
        · exact .inl ⟨pos, .inl given⟩
        · exact .inr counted
        · exact .inl ⟨same ▸ zero, .inr same⟩
      · rintro (⟨pos, given | same⟩ | counted)
        · exact .inl (.inl ⟨pos, given⟩)
        · exact .inr same
        · exact .inl (.inr counted)

end Assigned

/-! ### Distinct ids -/

section Distinct

/-- **An automatic id is new** exactly when the counter is not at an id given before and has not come
round. -/
theorem automatic_new {props : IntrusiveArrayProps} {before : List MetaDescriptor}
    (word : ∀ descriptor ∈ before, descriptor.id < 2 ^ 64) :
    (automatics before + 1) % 2 ^ 64 ∉ (registered (metaEmpty props) before).map (·.2) ↔
      automatics before + 1 ∉ before.map (·.id) ∧ automatics before < 2 ^ 64 := by
  rw [registered_ids_mem, not_or]
  constructor
  · rintro ⟨given, counted⟩
    have less : automatics before < 2 ^ 64 := by
      by_contra round
      exact counted ⟨automatics before - 2 ^ 64, by omega, by omega⟩
    refine ⟨fun inside => ?_, less⟩
    obtain ⟨descriptor, member, same⟩ := List.mem_map.mp inside
    have small := word descriptor member
    rw [Nat.mod_eq_of_lt (by omega)] at given
    exact given ⟨Nat.succ_ne_zero _, inside⟩
  · rintro ⟨given, less⟩
    refine ⟨fun ⟨pos, inside⟩ => ?_, fun ⟨made, fewer, same⟩ => ?_⟩
    · by_cases last : automatics before + 1 = 2 ^ 64
      · rw [last] at pos
        exact pos (Nat.mod_self _)
      · rw [Nat.mod_eq_of_lt (by omega)] at inside
        exact given inside
    · omega

/-- What the registry is at an unused id: no type that it holds has it. -/
theorem metaGetDescriptor_none {reg : MetaRegistry} {all : List MetaDescriptor} (lists : reg.Lists all)
    {id : Nat} (none : metaGetDescriptor reg id = none) : id ∉ all.map (·.id) := by
  intro inside
  obtain ⟨descriptor, member, same⟩ := List.mem_map.mp inside
  unfold metaGetDescriptor at none
  rw [lists.table] at none
  have miss := List.find?_eq_none.mp none descriptor
    (List.mem_filter.mpr ⟨member, by rw [same]; exact beq_self_eq_true _⟩)
  exact miss (beq_iff_eq.mpr same)

theorem copies_ids (props : IntrusiveArrayProps) (descriptors : List MetaDescriptor) :
    (metaRegisterAll (metaEmpty props) descriptors).2.map (·.id) =
      (registered (metaEmpty props) descriptors).map (·.2) := by
  rw [metaRegisterAll_copies, List.map_map]
  rfl

/-- **The ids of a run are distinct** exactly when the counter is clear of those given. -/
theorem registered_ids_nodup {props : IntrusiveArrayProps} {descriptors : List MetaDescriptor}
    (word : ∀ descriptor ∈ descriptors, descriptor.id < 2 ^ 64)
    (unused : ∀ before descriptor, before ++ [descriptor] <+: descriptors → descriptor.id ≠ 0 →
      metaGetDescriptor (metaRegisterAll (metaEmpty props) before).1 descriptor.id = none) :
    ((registered (metaEmpty props) descriptors).map (·.2)).Nodup ↔ CounterClear descriptors := by
  induction descriptors using List.reverseRecOn with
  | nil =>
    refine ⟨fun _ before descriptor within => ?_, fun _ => List.nodup_nil⟩
    exact absurd (List.prefix_nil.mp within) (by simp)
  | append_singleton before descriptor ih =>
    have earlier := ih (fun other member => word other (List.mem_append_left _ member))
      fun first other within => unused first other (within.trans (List.prefix_append _ _))
    have clear : CounterClear (before ++ [descriptor]) ↔ CounterClear before ∧ (descriptor.id = 0 →
        automatics before + 1 ∉ before.map (·.id) ∧ automatics before < 2 ^ 64) := by
      constructor
      · intro clear
        exact ⟨fun first other within => clear first other (within.trans (List.prefix_append _ _)),
          clear before descriptor (List.prefix_refl _)⟩
      · rintro ⟨clear, last⟩ first other within
        rcases List.prefix_concat_iff.mp within with whole | within
        · obtain ⟨rfl, same⟩ := List.append_inj' whole rfl
          cases same
          exact last
        · exact clear first other within
    rw [registered_snoc, List.map_append, List.map_cons, List.map_nil, ← List.concat_eq_append,
      List.nodup_concat, earlier, clear, and_comm]
    refine and_congr_right fun _ => ?_
    by_cases zero : descriptor.id = 0
    · rw [if_pos zero, automatic_new fun other member => word other (List.mem_append_left _ member)]
      exact ⟨fun new _ => new, fun new => new zero⟩
    · rw [if_neg zero, ← copies_ids]
      have lists := metaRegisterAll_lists before (metaEmpty_lists props)
      exact ⟨fun _ given => absurd given zero, fun _ =>
        metaGetDescriptor_none lists (unused before descriptor (List.prefix_refl _) zero)⟩

end Distinct

/-! ### Types and their ids -/

section Identifying

variable {props : IntrusiveArrayProps} {descriptors : List MetaDescriptor}

/-- **Ids identify the types of a run** exactly when ids and names are distinct. -/
theorem Identified.iff_nodup :
    Identified (metaRegisterAll (metaEmpty props) descriptors).1
        (registered (metaEmpty props) descriptors) ↔
      ((registered (metaEmpty props) descriptors).map (·.2)).Nodup ∧
        (descriptors.map (·.name)).Nodup := by
  have lists := metaRegisterAll_lists descriptors (metaEmpty_lists props)
  rw [List.nil_append] at lists
  have copied : ∀ type ∈ registered (metaEmpty props) descriptors,
      { type.1 with id := type.2 } ∈ (metaRegisterAll (metaEmpty props) descriptors).2 := by
    intro type member
    rw [metaRegisterAll_copies]
    exact List.mem_map_of_mem member
  have ids := copies_ids props descriptors
  have names : (metaRegisterAll (metaEmpty props) descriptors).2.map (·.name) =
      descriptors.map (·.name) := metaRegisterAll_names descriptors
  constructor
  · intro identified
    refine ⟨identified.distinct, ?_⟩
    have same : ∀ type ∈ registered (metaEmpty props) descriptors,
        ∀ other ∈ registered (metaEmpty props) descriptors,
          type.1.name = other.1.name → type = other := by
      intro type member other here equal
      have id : type.2 = other.2 := by
        rw [← identified.names type member, equal, identified.names other here]
      exact List.inj_on_of_nodup_map identified.distinct member here id
    have nodup := List.Nodup.of_map _ identified.distinct
    have mapped : ((registered (metaEmpty props) descriptors).map (·.1)).map (·.name) =
        descriptors.map (·.name) := by
      rw [registered_names]
    rw [List.map_map] at mapped
    rw [← mapped]
    exact List.Nodup.map_on (fun type member other here => same type member other here) nodup
  · rintro ⟨distinct, named⟩
    refine ⟨distinct, fun type member => ?_, fun type member => ?_⟩
    · exact metaGetId_of_mem lists (by rw [names]; exact named) (copied type member)
    · exact metaGetDescriptor_of_mem lists (by rw [ids]; exact distinct) (copied type member)

theorem definedTypes_ids (option : Bool) : ∀ descriptor ∈ definedTypes option, descriptor.id = 0 := by
  cases option <;> decide

theorem definedTypes_names (option : Bool) : ((definedTypes option).map (·.name)).Nodup := by
  cases option <;> decide +kernel

/-- What a run from `vd_meta_init` asks for is unused also after what `vd_meta_init` registers. -/
theorem Admissible.unused_all {option : Bool} (admissible : Admissible (metaInit props option) descriptors)
    {before : List MetaDescriptor} {descriptor : MetaDescriptor}
    (within : before ++ [descriptor] <+: definedTypes option ++ descriptors)
    (given : descriptor.id ≠ 0) :
    metaGetDescriptor (metaRegisterAll (metaEmpty props) before).1 descriptor.id = none := by
  have later : ¬ before ++ [descriptor] <+: definedTypes option := fun inside =>
    given (definedTypes_ids option descriptor (inside.subset (by simp)))
  rcases List.prefix_or_prefix_of_prefix within (List.prefix_append _ _) with inside | ⟨run, whole⟩
  · exact absurd inside later
  rcases List.eq_nil_or_concat run with rfl | ⟨first, last, rfl⟩
  · rw [List.append_nil] at whole
    exact absurd (whole ▸ List.prefix_refl _) later
  · rw [List.concat_eq_append, ← List.append_assoc] at whole
    obtain ⟨rfl, same⟩ := List.append_inj' whole rfl
    cases same
    rw [List.append_assoc, List.prefix_append_right_inj] at within
    rw [metaRegisterAll_append]
    exact admissible.unused first descriptor within given

/-- **A run keeps ids identifying types**, in every state that it comes to, exactly when the counter
comes to no id given before and no name is one of the types that `vd_meta_init` registered. -/
theorem ids_identify_iff (props : IntrusiveArrayProps) (option : Bool)
    {descriptors : List MetaDescriptor} (admissible : Admissible (metaInit props option) descriptors) :
    (∀ n, Identified (metaRegisterAll (metaInit props option) (descriptors.take n)).1
        (registered (metaEmpty props) (definedTypes option ++ descriptors.take n))) ↔
      CounterClear (definedTypes option ++ descriptors) ∧
        ∀ descriptor ∈ descriptors, descriptor.name ∉ (definedTypes option).map (·.name) := by
  have state : ∀ n, (metaRegisterAll (metaInit props option) (descriptors.take n)).1 =
      (metaRegisterAll (metaEmpty props) (definedTypes option ++ descriptors.take n)).1 := by
    intro n
    rw [metaRegisterAll_append]
    rfl
  have word : ∀ descriptor ∈ definedTypes option ++ descriptors, descriptor.id < 2 ^ 64 := by
    intro descriptor member
    rcases List.mem_append.mp member with initial | member
    · rw [definedTypes_ids option descriptor initial]
      decide
    · exact admissible.word descriptor member
  have ids : ((registered (metaEmpty props) (definedTypes option ++ descriptors)).map (·.2)).Nodup ↔
      CounterClear (definedTypes option ++ descriptors) :=
    registered_ids_nodup word fun before descriptor within given =>
      admissible.unused_all within given
  have names : ((definedTypes option ++ descriptors).map (·.name)).Nodup ↔
      ∀ descriptor ∈ descriptors, descriptor.name ∉ (definedTypes option).map (·.name) := by
    rw [List.map_append, List.nodup_append']
    constructor
    · rintro ⟨-, -, apart⟩ descriptor member initial
      exact apart initial (List.mem_map_of_mem member)
    · intro apart
      refine ⟨definedTypes_names option, admissible.names, fun name initial inside => ?_⟩
      obtain ⟨descriptor, member, rfl⟩ := List.mem_map.mp inside
      exact apart descriptor member initial
  have every : (∀ n, Identified (metaRegisterAll (metaInit props option) (descriptors.take n)).1
      (registered (metaEmpty props) (definedTypes option ++ descriptors.take n))) ↔
      ((registered (metaEmpty props) (definedTypes option ++ descriptors)).map (·.2)).Nodup ∧
        ((definedTypes option ++ descriptors).map (·.name)).Nodup := by
    constructor
    · intro identified
      have last := identified descriptors.length
      rw [state, Identified.iff_nodup, List.take_length] at last
      exact last
    · rintro ⟨distinct, named⟩ n
      have split : definedTypes option ++ descriptors =
          (definedTypes option ++ descriptors.take n) ++ descriptors.drop n := by
        rw [List.append_assoc, List.take_append_drop]
      rw [split, registered_append, List.map_append] at distinct
      rw [split, List.map_append] at named
      rw [state, Identified.iff_nodup]
      exact ⟨distinct.of_append_left, named.of_append_left⟩
  rw [every, ids, names]

/-- The registrations of a run, one by one. -/
theorem every_registration {P : List MetaDescriptor → MetaDescriptor → Prop} :
    (∀ before descriptor, before ++ [descriptor] <+: descriptors → P before descriptor) ↔
      ∀ i, (within : i < descriptors.length) → P (descriptors.take i) descriptors[i] := by
  constructor
  · intro every i within
    refine every _ _ ?_
    rw [List.take_append_getElem within]
    exact List.take_prefix _ _
  · rintro every before descriptor ⟨after, rfl⟩
    have within : before.length < (before ++ [descriptor] ++ after).length := by simp
    have here := every before.length within
    have earlier : (before ++ [descriptor] ++ after).take before.length = before := by
      rw [List.append_assoc, List.take_left]
    have last : (before ++ [descriptor] ++ after)[before.length] = descriptor := by simp
    rw [earlier, last] at here
    exact here

/-- A type that a caller registers under an id of its own, or under 0. -/
def givenType (name : String) (id : Nat) : MetaDescriptor :=
  { defaultPrimitive name 8 .u64 with id := id }

/-- Ids of both kinds, in one run. -/
def mixedIds : List MetaDescriptor := [givenType "Tag" 100, givenType "Mark" 0, givenType "Key" 7000]

theorem ids_identify_mixed : Identified (metaRegisterAll (metaInit (.default .bump) true) mixedIds).1
    (registered (metaEmpty (.default .bump)) (definedTypes true ++ mixedIds)) := by
  have admissible : Admissible (metaInit (.default .bump) true) mixedIds :=
    ⟨by decide, every_registration.mpr (by decide +kernel), by decide +kernel⟩
  have identified := (ids_identify_iff (.default .bump) true admissible).mpr
    ⟨every_registration.mpr (by decide +kernel), by decide +kernel⟩ mixedIds.length
  rw [List.take_length] at identified
  exact identified

/-- **An id that the counter comes to later**: the next automatic type gets it too, and the id leads to
the first of the two. -/
theorem counter_meets_given :
    Admissible (metaInit (.default .bump) true) [givenType "Tag" 13, givenType "Mark" 0] ∧
    ¬ Identified
      (metaRegisterAll (metaInit (.default .bump) true) [givenType "Tag" 13, givenType "Mark" 0]).1
      (registered (metaInit (.default .bump) true) [givenType "Tag" 13, givenType "Mark" 0]) := by
  refine ⟨⟨by decide, every_registration.mpr ?_, by decide +kernel⟩, fun identified => ?_⟩
  · decide +kernel
  · exact absurd identified.distinct (by decide +kernel)

end Identifying

end Vaudou
