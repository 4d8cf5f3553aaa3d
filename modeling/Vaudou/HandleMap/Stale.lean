/-
**Handles kept past the end of their object.**

In these runs any handle may be copied, used or dropped at any time, also one whose object is gone. A
drop of the last reference calls the free callback and sets the id in the slot to 0, but the integer
map still takes the id of the handle to the slot, so the handle goes on working.

* `handleRun_retired_iff` — the lookups of freed objects fail in every state of a run exactly if no
  drop of the run takes a reference count from 1 to 0.
-/

import Vaudou.HandleMap.Clients

namespace Vaudou

open Vaudou.Memory Vaudou.Run

variable {E : HandleMapEnv} {map after : HandleMap} {handle : Handle}

/-- A call with any handle whatever. -/
inductive HandleOp where
  | register (value : List UInt8) (mode : RefMode)
  | copy (handle : Handle)
  | use (handle : Handle)
  | drop (handle : Handle)

section Model

variable (E : HandleMapEnv)

/-- One call. -/
def handleStep (map : HandleMap) : HandleOp → Option HandleMap
  | .register value mode =>
    if value.length = E.elsize then (handlemapRegister E map value mode).map Prod.snd else none
  | .copy handle => (handlemapCopy E map handle).map Prod.snd
  | .use handle => (handleUse E map handle).map fun _ => map
  | .drop handle => (handleDrop E map handle).map Prod.snd

/-- With the handle of any freed object, use returns null and copy the null handle. -/
def Retired (map : HandleMap) : Prop :=
  ∀ slot ∈ map.freed, handleUse E map ⟨slot + 1, map.self⟩ = some 0 ∧
    (handlemapCopy E map ⟨slot + 1, map.self⟩).map Prod.fst = some Handle.null

/-- The call drops the last reference of a counted object. -/
def DropsLast (map : HandleMap) : HandleOp → Prop
  | .drop handle => ∃ slot, intmapTryget E.intmap map.idmap handle.id = some (some slot) ∧
    slotRefmode E map slot = RefMode.count.toNat ∧ slotRefcount E map slot = 1
  | _ => False

/-- No call of the run drops a last reference. -/
def NeverDropsLast (map : HandleMap) (ops : List HandleOp) : Prop :=
  ∀ before op rest reached, ops = before ++ op :: rest →
    run (handleStep E) map before = some reached → ¬ DropsLast E reached op

/-- The free callback has been called on slots handed out only. -/
structure FreedInside (map : HandleMap) : Prop where
  wf : map.WellFormed E
  inside : ∀ slot ∈ map.freed, slot < map.arrLen

end Model

section Steps

/-- **A freed object is still found**, so lookups fail on all freed objects only if there are none. -/
theorem FreedInside.retired_iff (freedInside : FreedInside E map) :
    Retired E map ↔ map.freed = [] := by
  constructor
  · intro retired
    refine List.eq_nil_iff_forall_not_mem.mpr fun slot member => ?_
    have found := freedInside.wf.tryget (freedInside.inside slot member)
    obtain ⟨null, -⟩ := retired slot member
    rw [handleUse, found] at null
    have := freedInside.wf.arr_pos
    have zero : slotValuePtr E map slot = 0 := Option.some.inj null
    unfold slotValuePtr at zero
    omega
  · intro none slot member
    rw [none] at member
    cases member

/-- A slot found under any id is handed out, or has reference mode 0. -/
theorem HandleMap.WellFormed.found_lt {slot : Nat} (wf : map.WellFormed E) {id : Nat}
    (found : intmapTryget E.intmap map.idmap id = some (some slot)) :
    slot < map.arrLen ∨ slotRefmode E map slot = 0 := by
  rcases wf.tryget_cases id with missed | ⟨slot', found', inside | ⟨rfl, empty⟩⟩
  · cases missed.symm.trans found
  · cases found'.symm.trans found
    exact Or.inl inside
  · cases found'.symm.trans found
    exact Or.inr (wf.blank empty)

/-- A copy frees nothing. -/
theorem handlemapCopy_keeps (freedInside : FreedInside E map) {handle' : Handle}
    (copied : handlemapCopy E map handle = some (handle', after)) :
    FreedInside E after ∧ after.freed = map.freed := by
  cases found : intmapTryget E.intmap map.idmap handle.id with
  | none => simp [handlemapCopy, found] at copied
  | some result =>
    cases result with
    | none =>
      rw [handlemapCopy, found] at copied
      cases copied
      exact ⟨freedInside, rfl⟩
    | some slot =>
      obtain ⟨-, touched, freed, -⟩ := handlemapCopy_spec freedInside.wf found copied
      refine ⟨⟨touched.wf, fun j member => ?_⟩, freed⟩
      rw [touched.arrLen]
      exact freedInside.inside j (freed ▸ member)

/-- A drop frees nothing, or the object whose last reference it drops. -/
theorem handleDrop_keeps (freedInside : FreedInside E map) {handle' : Handle}
    (dropped : handleDrop E map handle = some (handle', after)) :
    FreedInside E after ∧ (after.freed = map.freed ∧ ¬ DropsLast E map (.drop handle) ∨
      after.freed ≠ [] ∧ DropsLast E map (.drop handle)) := by
  cases found : intmapTryget E.intmap map.idmap handle.id with
  | none => simp [handleDrop, found] at dropped
  | some result =>
    cases result with
    | none =>
      rw [handleDrop, found] at dropped
      cases dropped
      refine ⟨freedInside, Or.inl ⟨rfl, ?_⟩⟩
      rintro ⟨slot, held, -⟩
      cases found.symm.trans held
    | some slot =>
      obtain ⟨-, touched, outcome⟩ := handleDrop_spec freedInside.wf found dropped
      cases outcome with
      | uncounted mode same =>
        subst same
        refine ⟨freedInside, Or.inl ⟨rfl, ?_⟩⟩
        rintro ⟨slot', held, counted, -⟩
        cases found.symm.trans held
        exact mode counted
      | more mode count freed record =>
        refine ⟨⟨touched.wf, fun j member => ?_⟩, Or.inl ⟨freed, ?_⟩⟩
        · rw [touched.arrLen]
          exact freedInside.inside j (freed ▸ member)
        · rintro ⟨slot', held, -, one⟩
          cases found.symm.trans held
          omega
      | last mode count freed record =>
        refine ⟨⟨touched.wf, fun j member => ?_⟩, Or.inr ⟨?_, slot, found, mode, count⟩⟩
        · rw [touched.arrLen]
          rw [freed] at member
          rcases List.mem_append.mp member with older | newest
          · exact freedInside.inside j older
          · obtain rfl := List.mem_singleton.mp newest
            rcases freedInside.wf.found_lt found with inside | uncounted
            · exact inside
            · rw [mode] at uncounted
              cases uncounted
        · rw [freed]
          exact List.append_ne_nil_of_right_ne_nil _ (List.cons_ne_nil _ _)

/-- **One call**: the freed objects stay inside, and the first free is a last drop. -/
theorem handleStep_keeps (freedInside : FreedInside E map) {op : HandleOp}
    (stepped : handleStep E map op = some after) :
    FreedInside E after ∧ (after.freed = map.freed ∧ ¬ DropsLast E map op ∨
      after.freed ≠ [] ∧ DropsLast E map op) := by
  cases op with
  | register value mode =>
    obtain ⟨length, made⟩ := Option.ite_none_right_eq_some.mp stepped
    obtain ⟨⟨handle, map'⟩, registered, rfl⟩ := Option.map_eq_some_iff.mp made
    obtain ⟨-, wf, -, arrLen, freed, -⟩ := handlemapRegister_spec freedInside.wf length registered
    refine ⟨⟨wf, fun j member => ?_⟩, Or.inl ⟨freed, fun last => last⟩⟩
    show j < map'.arrLen
    rw [arrLen]
    exact Nat.lt_succ_of_lt (freedInside.inside j (freed ▸ member))
  | copy handle =>
    obtain ⟨⟨handle', map'⟩, copied, rfl⟩ := Option.map_eq_some_iff.mp stepped
    obtain ⟨inside, freed⟩ := handlemapCopy_keeps freedInside copied
    exact ⟨inside, Or.inl ⟨freed, fun last => last⟩⟩
  | use handle =>
    obtain ⟨p, used, rfl⟩ := Option.map_eq_some_iff.mp stepped
    exact ⟨freedInside, Or.inl ⟨rfl, fun last => last⟩⟩
  | drop handle =>
    obtain ⟨⟨handle', map'⟩, dropped, rfl⟩ := Option.map_eq_some_iff.mp stepped
    exact handleDrop_keeps freedInside dropped

/-- The drop of a last reference is defined. -/
theorem handleStep_defined {op : HandleOp} (last : DropsLast E map op) :
    ∃ after, handleStep E map op = some after := by
  cases op with
  | drop handle =>
    obtain ⟨slot, found, -, one⟩ := last
    obtain ⟨result, dropped⟩ := handleDrop_defined handle found fun _ => by omega
    exact ⟨result.2, congrArg (Option.map Prod.snd) dropped⟩
  | _ => exact last.elim

end Steps

/-! ### Runs -/

section Runs

theorem run_freedInside (freedInside : FreedInside E map) {ops : List HandleOp}
    (ran : run (handleStep E) map ops = some after) : FreedInside E after :=
  run_invariant (fun _ _ _ inside stepped => (handleStep_keeps inside stepped).1) ran freedInside

/-- Without a last drop nothing is freed. -/
theorem run_freed_nil (freedInside : FreedInside E map) (none : map.freed = [])
    {ops : List HandleOp} (never : NeverDropsLast E map ops) {before rest : List HandleOp}
    {reached : HandleMap} (split : ops = before ++ rest)
    (ran : run (handleStep E) map before = some reached) : reached.freed = [] := by
  induction before using List.reverseRecOn generalizing rest reached with
  | nil =>
    cases ran
    exact none
  | append_singleton before op ih =>
    obtain ⟨middle, ran, last⟩ := run_append_some.mp ran
    obtain ⟨next, stepped, same⟩ := run_cons_some.mp last
    cases same
    have split' : ops = before ++ op :: rest := by
      rw [split, List.append_assoc]
      rfl
    have empty := ih split' ran
    rcases (handleStep_keeps (run_freedInside freedInside ran) stepped).2 with
      ⟨freed, -⟩ | ⟨-, last⟩
    · rw [freed, empty]
    · exact absurd last (never before op rest middle split' ran)

/-- **Exactly when no freed object is found again.** In a run from a fresh map, all lookups of freed
objects fail in every state reached if and only if no drop of the run drops the last reference of a
counted object. -/
theorem handleRun_retired_iff (E : HandleMapEnv) (self : Nat) (mem : Mem) (initialCapacity : Nat)
    (pos : 0 < initialCapacity) (map : HandleMap)
    (initial : handlemapInit E self mem initialCapacity = some map) (ops : List HandleOp) :
    (∀ before rest reached, ops = before ++ rest →
      run (handleStep E) map before = some reached → Retired E reached) ↔
      NeverDropsLast E map ops := by
  obtain ⟨wf, -, -, none⟩ := handlemapInit_wellFormed pos initial
  have freedInside : FreedInside E map := ⟨wf, fun slot member => by rw [none] at member; cases member⟩
  constructor
  · intro retired before op rest reached split ran last
    obtain ⟨after, stepped⟩ := handleStep_defined last
    have ran' : run (handleStep E) map (before ++ [op]) = some after :=
      run_append_some.mpr ⟨reached, ran, run_cons_some.mpr ⟨after, stepped, rfl⟩⟩
    have split' : ops = (before ++ [op]) ++ rest := by
      rw [split, List.append_assoc]
      rfl
    have empty := (run_freedInside freedInside ran').retired_iff.mp (retired _ _ _ split' ran')
    rcases (handleStep_keeps (run_freedInside freedInside ran) stepped).2 with
      ⟨-, notLast⟩ | ⟨some, -⟩
    · exact notLast last
    · exact some empty
  · intro never before rest reached split ran
    exact (run_freedInside freedInside ran).retired_iff.mpr
      (run_freed_nil freedInside none never split ran)

/-- A run that uses its only handle. -/
theorem handleRun_retired_iff_pair :
    0 < 1 ∧ ∃ map, handlemapInit pairEnv 8 (fun _ => 0) 1 = some map ∧
      ((∀ before rest reached,
          [HandleOp.register [1, 2] .count, .use ⟨1, 8⟩] = before ++ rest →
          run (handleStep pairEnv) map before = some reached → Retired pairEnv reached) ↔
        NeverDropsLast pairEnv map [.register [1, 2] .count, .use ⟨1, 8⟩]) := by
  obtain ⟨map, initial⟩ := Option.isSome_iff_exists.mp
    (show (handlemapInit pairEnv 8 (fun _ => 0) 1).isSome = true by decide)
  exact ⟨by decide, map, initial,
    handleRun_retired_iff pairEnv 8 (fun _ => 0) 1 (by decide) map initial _⟩

/-- **A freed object is used again**: register a counted object, keep a copy of the handle's value,
drop the only reference, and use the kept handle. -/
theorem stale_handle_used :
    ¬ ∀ (E : HandleMapEnv) (self : Nat) (mem : Mem) (initialCapacity : Nat), 0 < initialCapacity →
      ∀ map, handlemapInit E self mem initialCapacity = some map →
        ∀ (ops : List HandleOp) (reached : HandleMap),
          run (handleStep E) map ops = some reached → Retired E reached := by
  intro claimed
  have reaches : ((handlemapInit pairEnv 8 (fun _ => 0) 1).bind fun map =>
      (run (handleStep pairEnv) map [.register [1, 2] .count, .drop ⟨1, 8⟩]).map fun reached =>
        (reached.freed, reached.self, handleUse pairEnv reached ⟨1, 8⟩)) =
      some ([0], 8, some 17) := by decide +kernel
  obtain ⟨map, initial, rest⟩ := Option.bind_eq_some_iff.mp reaches
  obtain ⟨reached, ran, same⟩ := Option.map_eq_some_iff.mp rest
  rw [Prod.mk.injEq, Prod.mk.injEq] at same
  obtain ⟨freed, self, used⟩ := same
  have retired := claimed pairEnv 8 _ 1 (by decide) map initial _ reached ran
  obtain ⟨null, -⟩ := retired 0 (by rw [freed]; exact List.mem_singleton_self 0)
  rw [self, used] at null
  cases null

end Runs

end Vaudou
