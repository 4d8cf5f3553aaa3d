/-
**What the clients of a handle map see, over every run.**

A run creates a map, performs the clients' calls in any order and, in `objects_freed_once`, ends with
`vd_handlemap__deinit`. The initial capacity is at least 1 and the slot array and the integer map may
grow any number of times.

* `handleUse_registered` — a token that has not been dropped leads to the bytes that were registered,
  and objects with different ids do not overlap.
* `objects_freed_once` — the free callback is called on a counted object by the drop of its last token,
  never earlier, and exactly once on every object by the end of `vd_handlemap__deinit`.
-/

import Vaudou.HandleMap.Tokens

namespace Vaudou

open Vaudou.Memory Vaudou.Ownership Vaudou.Run

variable {E : HandleMapEnv} {map : HandleMap} {session : Session}

/-- Create a map and perform the clients' calls. -/
def sessionRun (E : HandleMapEnv) (self : Nat) (mem : Mem) (initialCapacity : Nat)
    (ops : List (Op E.Value)) : Option Session :=
  (handlemapInit E self mem initialCapacity).bind fun map => run (sessionStep E) ⟨map, []⟩ ops

/-- **Every run of a session is a run of the store.** -/
theorem sessionRun_simulates {self : Nat} {mem : Mem} {initialCapacity : Nat}
    (pos : 0 < initialCapacity) {ops : List (Op E.Value)}
    (ran : sessionRun E self mem initialCapacity ops = some session) :
    ∃ store, run Store.step Store.empty ops = some store ∧ Related E session store := by
  obtain ⟨map, initial, ran⟩ := Option.bind_eq_some_iff.mp ran
  exact run_simulates sessionStep_simulates ran (related_start pos initial)

/-! ### Deinitialising -/

section Deinit

theorem slotId_deinitSlot (i j : Nat) : slotId E (deinitSlot E map i) j = slotId E map j := by
  unfold deinitSlot
  split
  · rfl
  · by_cases same : j = i
    · subst same
      have record := slotState_callOnFreeObject E map j
      simp only [slotState, SlotState.mk.injEq] at record
      exact record.2.2.1
    · have record : slotState E (callOnFreeObject E map i) j = slotState E map j :=
        slotState_congr (slotBytes_callOnFreeObject same)
      simp only [slotState, SlotState.mk.injEq] at record
      exact record.2.2.1

theorem freed_deinitSlot (i : Nat) :
    (deinitSlot E map i).freed = map.freed ++ [i].filter fun j => slotId E map j != 0 := by
  unfold deinitSlot
  split
  · rename_i zero
    simp [zero]
  · rename_i live
    simp [live, callOnFreeObject]

/-- The callback is called, in order, on the slots whose id is not 0. -/
theorem freed_deinitSlots : ∀ (slots : List Nat) (map : HandleMap),
    (slots.foldl (deinitSlot E) map).freed =
      map.freed ++ slots.filter fun j => slotId E map j != 0
  | [], map => (List.append_nil _).symm
  | i :: rest, map => by
    rw [List.foldl_cons, freed_deinitSlots rest, freed_deinitSlot, List.append_assoc]
    simp only [slotId_deinitSlot]
    rw [← List.filter_append]
    rfl

/-- **`vd_handlemap__deinit` completes the frees**: every object has been freed exactly once. -/
theorem handlemapDeinit_count {store : Store E.Value} (related : Related E session store) (n : Nat) :
    (handlemapDeinit E session.map).freed.count n = if n < store.objects.length then 1 else 0 := by
  unfold handlemapDeinit
  rw [freed_deinitSlots, related.freed, related.arrLen, List.count_append]
  by_cases freed : n ∈ store.freed
  · have inside := Store.counted_lt ((related.sound.freed n).mp freed).1
    have skipped : n ∉ (List.range store.objects.length).filter
        fun j => slotId E session.map j != 0 := by
      simp [related.cleared n freed]
    rw [List.count_eq_one_of_mem related.sound.nodup freed, List.count_eq_zero.mpr skipped,
      if_pos inside]
  · rw [List.count_eq_zero.mpr freed, Nat.zero_add]
    split
    · rename_i inside
      have record := related.records n _ (List.getElem?_eq_getElem inside) freed
      refine List.count_eq_one_of_mem (List.nodup_range.filter _) ?_
      rw [List.mem_filter, record.id]
      exact ⟨List.mem_range.mpr inside, rfl⟩
    · rename_i outside
      refine List.count_eq_zero.mpr fun member => ?_
      exact outside (List.mem_range.mp (List.mem_of_mem_filter member))

end Deinit

/-! ### Using -/

section Using

variable {store : Store E.Value} {token : Nat} {handle : Handle}

/-- The object behind an undropped token. -/
theorem Related.use (related : Related E session store)
    (held : session.held token = some handle) :
    ∃ n object, store.owned token = some n ∧ handle.id = n + 1 ∧
      store.objects[n]? = some object ∧
      handleUse E session.map handle = some (slotValuePtr E session.map n) ∧
      slotValue E session.map n = object.value.val := by
  obtain ⟨n, owner, rfl⟩ := related.held_iff.mp held
  obtain ⟨object, here, inside, record⟩ := related.record owner
  refine ⟨n, object, owner, rfl, here, ?_, record.value⟩
  rw [handleUse, related.wf.tryget inside]
  rfl

/-- The session and the store have the same undropped tokens, for the same objects. -/
theorem Related.held_id (related : Related E session store) (token : Nat) :
    (session.held token).map Handle.id = (store.owned token).map (· + 1) := by
  cases owner : store.owned token with
  | none =>
    cases held : session.held token with
    | none => rfl
    | some handle =>
      obtain ⟨n, owner', -⟩ := related.held_iff.mp held
      cases owner.symm.trans owner'
  | some n =>
    rw [related.held_iff.mpr ⟨n, owner, rfl⟩]
    rfl

/-- **Tokens lead to what was registered.** An undropped token names an object of the store by its
id; using it returns a pointer, not null, to exactly the bytes the object was registered with; and
the objects of tokens with different ids do not overlap. -/
structure LeadsToRegistered (E : HandleMapEnv) (session : Session) (store : Store E.Value) :
    Prop where
  held_id : ∀ token, (session.held token).map Handle.id = (store.owned token).map (· + 1)
  use : ∀ token handle, session.held token = some handle →
    ∃ n object p, store.owned token = some n ∧ handle.id = n + 1 ∧
      store.objects[n]? = some object ∧ handleUse E session.map handle = some p ∧ p ≠ 0 ∧
      session.map.mem.load p E.elsize = object.value.val
  apart : ∀ token token' handle handle' p p', session.held token = some handle →
    session.held token' = some handle' → handle.id ≠ handle'.id →
    handleUse E session.map handle = some p → handleUse E session.map handle' = some p' →
    p + E.elsize ≤ p' ∨ p' + E.elsize ≤ p

/-- **The handle map refines a store of values by id**, in every run and through every growth. -/
theorem handleUse_registered (E : HandleMapEnv) (self : Nat) (mem : Mem) (initialCapacity : Nat)
    (pos : 0 < initialCapacity) (ops : List (Op E.Value)) (session : Session)
    (ran : sessionRun E self mem initialCapacity ops = some session) :
    ∃ store, run Store.step Store.empty ops = some store ∧ LeadsToRegistered E session store := by
  obtain ⟨store, ran', related⟩ := sessionRun_simulates pos ran
  refine ⟨store, ran', related.held_id, fun token handle held => ?_, ?_⟩
  · obtain ⟨n, object, owner, id, here, used, value⟩ := related.use held
    refine ⟨n, object, _, owner, id, here, used, ?_, value⟩
    have := related.wf.arr_pos
    unfold slotValuePtr
    omega
  · intro token token' handle handle' p p' held held' different used used'
    obtain ⟨n, -, -, id, -, usedHere, -⟩ := related.use held
    obtain ⟨n', -, -, id', -, usedThere, -⟩ := related.use held'
    cases usedHere.symm.trans used
    cases usedThere.symm.trans used'
    have apart := slot_apart E session.map (show n ≠ n' by omega)
    rw [slotValuePtr_eq, slotValuePtr_eq]
    unfold HandleMapEnv.arrayElementSize entryMetadataSize at apart
    omega

/-- **Every object is freed exactly once, and a counted one never early.** What a further call frees
is what it frees in the store: the counted object whose last undropped token it drops, and nothing
else; until then a counted object has been freed exactly when no undropped token names it. After
`vd_handlemap__deinit` every registered object of either mode has been freed once. Calls do not get
stuck: while fewer than `2 ^ 31` undropped tokens name one object, only a slot that cannot be
allocated stops one. -/
structure FreedOnce (E : HandleMapEnv) (session : Session) (store : Store E.Value) : Prop where
  held_id : ∀ token, (session.held token).map Handle.id = (store.owned token).map (· + 1)
  freed : ∀ n, n ∈ session.map.freed ↔ store.counted n = true ∧ some n ∉ store.tokens
  frees : ∀ op session', sessionStep E session op = some session' →
    session'.map.freed = session.map.freed ++ store.frees op
  deinit : ∀ n, (handlemapDeinit E session.map).freed.count n =
    if n < store.objects.length then 1 else 0
  defined : ∀ op store', store.step op = some store' →
    (∀ n, store'.tokens.count (some n) < 2 ^ 31) →
    allocateSlot E { session.map with nextId := session.map.nextId + 1 } ≠ none →
    ∃ session', sessionStep E session op = some session'

/-- **Reference counting frees each object exactly once and never early**, in every run. -/
theorem objects_freed_once (E : HandleMapEnv) (self : Nat) (mem : Mem) (initialCapacity : Nat)
    (pos : 0 < initialCapacity) (ops : List (Op E.Value)) (session : Session)
    (ran : sessionRun E self mem initialCapacity ops = some session) :
    ∃ store, run Store.step Store.empty ops = some store ∧ FreedOnce E session store := by
  obtain ⟨store, ran', related⟩ := sessionRun_simulates pos ran
  refine ⟨store, ran', related.held_id, fun n => ?_, fun op session' stepped => ?_,
    handlemapDeinit_count related, fun op store' allowed few room =>
      sessionStep_defined related allowed few room⟩
  · rw [related.freed]
    exact related.sound.freed n
  · obtain ⟨store', stepped', related'⟩ := sessionStep_simulates _ _ _ _ related stepped
    rw [related'.freed, related.freed]
    exact Store.step_freed stepped'

end Using

/-! ### A run -/

/-- Two-byte objects, one bucket, an array that moves when it grows, a callback that clears. -/
def pairEnv : HandleMapEnv where
  intmap := oneBucket
  allocator := Realloc.moving
  elsize := 2
  onFreeObject bytes := bytes.map fun _ => 0
  onFreeObject_length _ := List.length_map _

/-- An object of two bytes. -/
def pairValue (first second : UInt8) : pairEnv.Value := ⟨[first, second], rfl⟩

/-- Three registrations in a map of capacity 1, with copies and drops in between. -/
def pairRun : List (Op pairEnv.Value) :=
  [.register ⟨[1, 2], rfl⟩ true, .copy 0, .register ⟨[3, 4], rfl⟩ false, .drop 0, .use 1,
    .register ⟨[5, 6], rfl⟩ true, .drop 1, .drop 2]

theorem pairRun_defined : (sessionRun pairEnv 8 (fun _ => 0) 1 pairRun).isSome = true := by
  decide +kernel

/-- The tokens of the run. -/
theorem handleUse_registered_pair :
    0 < 1 ∧ ∃ session, sessionRun pairEnv 8 (fun _ => 0) 1 pairRun = some session ∧
      ∃ store, run Store.step Store.empty pairRun = some store ∧
        LeadsToRegistered pairEnv session store := by
  obtain ⟨session, ran⟩ := Option.isSome_iff_exists.mp pairRun_defined
  exact ⟨by decide, session, ran,
    handleUse_registered pairEnv 8 (fun _ => 0) 1 (by decide) pairRun session ran⟩

/-- The frees of the run. -/
theorem objects_freed_once_pair :
    0 < 1 ∧ ∃ session, sessionRun pairEnv 8 (fun _ => 0) 1 pairRun = some session ∧
      ∃ store, run Store.step Store.empty pairRun = some store ∧ FreedOnce pairEnv session store := by
  obtain ⟨session, ran⟩ := Option.isSome_iff_exists.mp pairRun_defined
  exact ⟨by decide, session, ran,
    objects_freed_once pairEnv 8 (fun _ => 0) 1 (by decide) pairRun session ran⟩

end Vaudou
