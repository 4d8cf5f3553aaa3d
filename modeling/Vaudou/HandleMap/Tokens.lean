/-
**The handle map refines the store of owned objects.**

A session is a handle map with the handle variables its clients hold: a registration or a copy makes a
new one, and a variable that has been dropped is not used again. `Related` ties a session to a
`Store`: object `n` of the store is slot `n` of the map, under id `n + 1`; its record holds the bytes
it was registered with, and for a counted object the count of its undropped tokens.

* `sessionStep_simulates` — every operation of a session is the same operation of the store.
* `sessionStep_defined` — while fewer than `2 ^ 31` tokens name one object, only a failing allocation
  stops an operation.
* `handleUse_registered`, `objects_freed_once` — what clients see of it, over every run.
-/

import Vaudou.Foundation.Ownership
import Vaudou.Foundation.Run
import Vaudou.HandleMap.Operations

namespace Vaudou

open Vaudou.Memory Vaudou.Ownership Vaudou.Run

/-- The bytes of an object of the map. -/
abbrev HandleMapEnv.Value (E : HandleMapEnv) : Type :=
  { bytes : List UInt8 // bytes.length = E.elsize }

/-- A handle map and the handle variables its clients hold; `none` is a dropped one. -/
structure Session where
  map : HandleMap
  tokens : List (Option Handle)

/-- The reference mode of a registration. -/
def refModeOf : Bool → RefMode
  | true => .count
  | false => .always

section Sessions

variable (E : HandleMapEnv)

/-- The handle of an undropped token. -/
def Session.held (session : Session) (token : Nat) : Option Handle := session.tokens[token]?.join

/-- One call of the library by the clients. -/
def sessionStep (session : Session) : Op E.Value → Option Session
  | .register value counted =>
    (handlemapRegister E session.map value.val (refModeOf counted)).map fun result =>
      ⟨result.2, session.tokens ++ [some result.1]⟩
  | .copy token => (session.held token).bind fun handle =>
    (handlemapCopy E session.map handle).map fun result =>
      ⟨result.2, session.tokens ++ [some result.1]⟩
  | .use token => (session.held token).bind fun handle =>
    (handleUse E session.map handle).map fun _ => session
  | .drop token => (session.held token).bind fun handle =>
    (handleDrop E session.map handle).map fun result =>
      ⟨result.2, session.tokens.set token none⟩

/-- What the record of an object that has not been freed says. -/
structure RecordOf (map : HandleMap) (tokens : Nat) (n : Nat) (object : Object E.Value) : Prop where
  refmode : slotRefmode E map n = (refModeOf object.counted).toNat
  id : slotId E map n = n + 1
  value : slotValue E map n = object.value.val
  refcount : object.counted = true → slotRefcount E map n = tokens

/-- The session and the store hold the same objects under the same tokens. -/
structure Related (session : Session) (store : Store E.Value) : Prop where
  wf : session.map.WellFormed E
  sound : store.Sound
  arrLen : session.map.arrLen = store.objects.length
  tokens : session.tokens = store.tokens.map (Option.map fun n => ⟨n + 1, session.map.self⟩)
  freed : session.map.freed = store.freed
  records : ∀ n object, store.objects[n]? = some object → n ∉ store.freed →
    RecordOf E session.map (store.tokens.count (some n)) n object
  cleared : ∀ n ∈ store.freed, slotId E session.map n = 0

end Sessions

variable {E : HandleMapEnv} {session session' : Session} {store store' : Store E.Value}
  {token n : Nat} {handle : Handle}

/-! ### Tokens -/

section Tokens

theorem Related.held_iff (related : Related E session store) :
    session.held token = some handle ↔
      ∃ n, store.owned token = some n ∧ handle = ⟨n + 1, session.map.self⟩ := by
  unfold Session.held
  rw [related.tokens, List.getElem?_map]
  unfold Store.owned
  rcases store.tokens[token]? with _ | _ | n
  · simp
  · simp
  · simp [eq_comm]

/-- An undropped token names a registered object whose record is in place. -/
theorem Related.record (related : Related E session store) (owner : store.owned token = some n) :
    ∃ object, store.objects[n]? = some object ∧ n < session.map.arrLen ∧
      RecordOf E session.map (store.tokens.count (some n)) n object := by
  have member := Store.owned_mem owner
  have inside := related.sound.owned n member
  refine ⟨store.objects[n], List.getElem?_eq_getElem inside, ?_, ?_⟩
  · rw [related.arrLen]
    exact inside
  · exact related.records n _ (List.getElem?_eq_getElem inside) (related.sound.not_freed member)

/-- A record whose count alone has changed. -/
theorem RecordOf.recount {map map' : HandleMap} {tokens tokens' : Nat} {refcount : Int}
    {object : Object E.Value} (record : RecordOf E map tokens n object)
    (changed : slotState E map' n = { slotState E map n with refcount := refcount })
    (count : object.counted = true → refcount = tokens') : RecordOf E map' tokens' n object := by
  simp only [slotState, SlotState.mk.injEq] at changed
  obtain ⟨counts, refmode, id, value⟩ := changed
  exact ⟨refmode.trans record.refmode, id.trans record.id, value.trans record.value,
    fun counted => counts.trans (count counted)⟩

/-- The id of every object that was registered is found. -/
theorem Related.found (related : Related E session store) (inside : n < session.map.arrLen) :
    intmapTryget E.intmap session.map.idmap (⟨n + 1, session.map.self⟩ : Handle).id = some (some n) :=
  related.wf.tryget inside

/-- A record is what its slot says. -/
theorem RecordOf.congr {map map' : HandleMap} {tokens tokens' : Nat} {object : Object E.Value}
    (record : RecordOf E map tokens n object) (same : slotState E map' n = slotState E map n)
    (count : tokens' = tokens) : RecordOf E map' tokens' n object := by
  subst count
  have changed : slotState E map' n = { slotState E map n with refcount := slotRefcount E map n } := by
    rw [same, slotState]
  exact record.recount changed record.refcount

/-- The freed slots stay cleared when another one is touched. -/
theorem Related.cleared_after {map : HandleMap} (related : Related E session store)
    (touched : TouchesOnly E session.map map n) (live : n ∉ store.freed) :
    ∀ m ∈ store.freed, slotId E map m = 0 := by
  intro m member
  have id := congrArg SlotState.id (touched.others m fun same => live (same ▸ member))
  exact id.trans (related.cleared m member)

theorem refModeOf_count {counted : Bool} :
    (refModeOf counted).toNat = RefMode.count.toNat ↔ counted = true := by
  cases counted <;> simp [refModeOf, RefMode.toNat]

end Tokens

/-! ### One operation -/

section Steps

theorem register_simulates (related : Related E session store) (value : E.Value) (counted : Bool)
    (stepped : sessionStep E session (.register value counted) = some session') :
    ∃ store', store.step (.register value counted) = some store' ∧ Related E session' store' := by
  obtain ⟨⟨handle, map⟩, registered, rfl⟩ := Option.map_eq_some_iff.mp stepped
  obtain ⟨rfl, wf, self, arrLen, freed, newest, others⟩ :=
    handlemapRegister_spec related.wf value.property registered
  have sound := Store.register_sound related.sound value counted
  have below : ∀ n ∈ store.freed, n < store.objects.length := fun n member =>
    Store.counted_lt ((related.sound.freed n).mp member).1
  refine ⟨_, rfl, wf, sound, ?_, ?_, freed.trans related.freed, ?_, ?_⟩
  · show map.arrLen = (store.objects ++ [_]).length
    rw [arrLen, related.arrLen, List.length_append, List.length_singleton]
  · show session.tokens ++ [some _] = (store.tokens ++ [some _]).map _
    rw [List.map_append, related.tokens, related.arrLen, self]
    rfl
  · intro n object here live
    have count := count_push (m := n) (n := store.objects.length) store.tokens
    by_cases last : n = store.objects.length
    · subst last
      rw [List.getElem?_concat_length] at here
      cases here
      have unnamed : store.tokens.count (some store.objects.length) = 0 := by
        refine List.count_eq_zero.mpr fun member => ?_
        exact Nat.lt_irrefl _ (related.sound.owned _ member)
      rw [unnamed, if_pos rfl] at count
      rw [related.arrLen] at newest
      simp only [slotState, SlotState.mk.injEq] at newest
      obtain ⟨refcount, refmode, id, value⟩ := newest
      exact ⟨refmode, id, value, fun _ => by rw [refcount, count]; rfl⟩
    · have inside : n < store.objects.length := by
        obtain ⟨within, -⟩ := List.getElem?_eq_some_iff.mp here
        rw [List.length_append, List.length_singleton] at within
        omega
      rw [List.getElem?_append_left inside] at here
      rw [if_neg last, Nat.add_zero] at count
      refine (related.records n object here live).congr (others n ?_) count
      rw [related.arrLen]
      exact inside
  · intro n member
    have id := congrArg SlotState.id (others n (by rw [related.arrLen]; exact below n member))
    exact id.trans (related.cleared n member)

theorem copy_simulates (related : Related E session store)
    (stepped : sessionStep E session (.copy token) = some session') :
    ∃ store', store.step (.copy token) = some store' ∧ Related E session' store' := by
  obtain ⟨handle, held, rest⟩ := Option.bind_eq_some_iff.mp stepped
  obtain ⟨⟨handle', map⟩, copied, rfl⟩ := Option.map_eq_some_iff.mp rest
  obtain ⟨n, owner, rfl⟩ := related.held_iff.mp held
  obtain ⟨object, here, inside, record⟩ := related.record owner
  obtain ⟨rfl, touched, freed, changed⟩ :=
    handlemapCopy_spec related.wf (related.found inside) copied
  have live := related.sound.not_freed (Store.owned_mem owner)
  refine ⟨_, congrArg (Option.map _) owner, touched.wf, Store.copy_sound related.sound owner,
    touched.arrLen.trans related.arrLen, ?_, freed.trans related.freed, ?_,
    related.cleared_after touched live⟩
  · show session.tokens ++ [some _] = (store.tokens ++ [some n]).map _
    rw [List.map_append, related.tokens, touched.self]
    rfl
  · intro m object' there liveThere
    have count := count_push (m := m) (n := n) store.tokens
    by_cases same : m = n
    · subst same
      rw [if_pos rfl] at count
      cases here.symm.trans there
      split at changed
      · refine record.recount changed fun ofCounted => ?_
        rw [count, record.refcount ofCounted]
        rfl
      · rename_i uncounted
        rw [record.refmode, refModeOf_count] at uncounted
        exact record.recount changed fun ofCounted => absurd ofCounted uncounted
    · rw [if_neg same, Nat.add_zero] at count
      exact (related.records m object' there liveThere).congr (touched.others m same) count

theorem use_simulates (related : Related E session store)
    (stepped : sessionStep E session (.use token) = some session') :
    ∃ store', store.step (.use token) = some store' ∧ Related E session' store' := by
  obtain ⟨handle, held, rest⟩ := Option.bind_eq_some_iff.mp stepped
  obtain ⟨p, used, rfl⟩ := Option.map_eq_some_iff.mp rest
  obtain ⟨n, owner, rfl⟩ := related.held_iff.mp held
  exact ⟨store, congrArg (Option.map _) owner, related⟩

/-- Which tokens are left tells whether the drop frees the object. -/
theorem release_freed (store : Store E.Value) (token n : Nat) :
    (store.release token n).freed =
      if store.counted n = true ∧ (store.release token n).tokens.count (some n) = 0
        then store.freed ++ [n] else store.freed := by
  simp only [List.count_eq_zero]
  rfl

theorem drop_simulates (related : Related E session store)
    (stepped : sessionStep E session (.drop token) = some session') :
    ∃ store', store.step (.drop token) = some store' ∧ Related E session' store' := by
  obtain ⟨handle, held, rest⟩ := Option.bind_eq_some_iff.mp stepped
  obtain ⟨⟨handle', map⟩, dropped, rfl⟩ := Option.map_eq_some_iff.mp rest
  obtain ⟨n, owner, rfl⟩ := related.held_iff.mp held
  obtain ⟨object, here, inside, record⟩ := related.record owner
  obtain ⟨-, touched, outcome⟩ := handleDrop_spec related.wf (related.found inside) dropped
  have live := related.sound.not_freed (Store.owned_mem owner)
  have mode : store.counted n = object.counted := by
    rw [Store.counted, here]
    rfl
  have count := fun m => Store.count_release (m := m) owner
  have own := count n
  rw [if_pos rfl] at own
  have freed := release_freed store token n
  have sound := Store.release_sound related.sound owner
  have others : ∀ m object', store.objects[m]? = some object' → m ≠ n → m ∉ store.freed →
      RecordOf E map ((store.release token n).tokens.count (some m)) m object' := by
    intro m object' there other liveThere
    have counts := count m
    rw [if_neg other, Nat.add_zero] at counts
    exact (related.records m object' there liveThere).congr (touched.others m other) counts
  have cleared := related.cleared_after touched live
  have tokens : session.tokens.set token none =
      (store.release token n).tokens.map (Option.map fun n => ⟨n + 1, map.self⟩) := by
    show _ = (store.tokens.set token none).map _
    rw [List.map_set, related.tokens, touched.self]
    rfl
  suffices rest : map.freed = (store.release token n).freed ∧
      (∀ m object', store.objects[m]? = some object' → m ∉ (store.release token n).freed →
        RecordOf E map ((store.release token n).tokens.count (some m)) m object') ∧
      ∀ m ∈ (store.release token n).freed, slotId E map m = 0 from
    ⟨_, congrArg (Option.map _) owner, touched.wf, sound, touched.arrLen.trans related.arrLen, tokens,
      rest.1, rest.2.1, rest.2.2⟩
  cases outcome with
  | uncounted isUncounted same =>
    have notCounted : ¬ object.counted = true := by
      rwa [record.refmode, ne_eq, refModeOf_count] at isUncounted
    rw [if_neg fun last => notCounted (mode ▸ last.1)] at freed
    rw [freed]
    subst same
    refine ⟨related.freed, fun m object' there liveThere => ?_, cleared⟩
    by_cases same : m = n
    · subst same
      cases here.symm.trans there
      exact record.recount rfl fun ofCounted => absurd ofCounted notCounted
    · exact others m object' there same liveThere
  | more isCounted above mapFreed changed =>
    rw [record.refmode, refModeOf_count] at isCounted
    rw [record.refcount isCounted] at above
    rw [if_neg fun last => by omega] at freed
    rw [freed]
    refine ⟨mapFreed.trans related.freed, fun m object' there liveThere => ?_, cleared⟩
    by_cases same : m = n
    · subst same
      cases here.symm.trans there
      refine record.recount changed fun _ => ?_
      rw [record.refcount isCounted]
      omega
    · exact others m object' there same liveThere
  | last isCounted one mapFreed changed =>
    rw [record.refmode, refModeOf_count] at isCounted
    rw [record.refcount isCounted] at one
    rw [if_pos ⟨mode.trans isCounted, by omega⟩] at freed
    rw [freed]
    refine ⟨mapFreed.trans (congrArg (· ++ [n]) related.freed), ?_, ?_⟩
    · intro m object' there liveThere
      rw [List.mem_append, List.mem_singleton, not_or] at liveThere
      exact others m object' there liveThere.2 liveThere.1
    · intro m member
      rcases List.mem_append.mp member with older | newest
      · exact cleared m older
      · obtain rfl := List.mem_singleton.mp newest
        have id := congrArg SlotState.id changed
        exact id

/-- **Every operation of a session is the same operation of the store.** -/
theorem sessionStep_simulates (session : Session) (store : Store E.Value) (op : Op E.Value)
    (session' : Session) (related : Related E session store)
    (stepped : sessionStep E session op = some session') :
    ∃ store', store.step op = some store' ∧ Related E session' store' := by
  cases op with
  | register value counted => exact register_simulates related value counted stepped
  | copy token => exact copy_simulates related stepped
  | use token => exact use_simulates related stepped
  | drop token => exact drop_simulates related stepped

/-- A fresh map with no handles is the empty store. -/
theorem related_start {self : Nat} {mem : Mem} {initialCapacity : Nat} {map : HandleMap}
    (pos : 0 < initialCapacity) (initial : handlemapInit E self mem initialCapacity = some map) :
    Related E ⟨map, []⟩ Store.empty := by
  obtain ⟨wf, arrLen, -, freed⟩ := handlemapInit_wellFormed pos initial
  refine ⟨wf, Store.empty_sound, arrLen, rfl, freed, fun _ _ here => ?_, fun _ member => ?_⟩
  · cases here
  · cases member

/-- A drop of an undropped token is always defined. -/
theorem drop_defined (related : Related E session store) (owner : store.owned token = some n) :
    ∃ session', sessionStep E session (.drop token) = some session' := by
  obtain ⟨object, -, inside, record⟩ := related.record owner
  have held := related.held_iff.mpr ⟨n, owner, rfl⟩
  have positive := List.count_pos_iff.mpr (Store.owned_mem owner)
  obtain ⟨result, dropped⟩ := handleDrop_defined ⟨n + 1, session.map.self⟩
    (related.wf.tryget inside) fun counted => by
      rw [record.refmode, refModeOf_count] at counted
      rw [record.refcount counted]
      exact_mod_cast positive
  rw [sessionStep, held, Option.bind_some, dropped]
  exact ⟨_, rfl⟩

/-- **Only a failing allocation stops an operation**, while fewer than `2 ^ 31` undropped tokens name
one object. -/
theorem sessionStep_defined (related : Related E session store) {op : Op E.Value}
    (allowed : store.step op = some store')
    (few : ∀ n, store'.tokens.count (some n) < 2 ^ 31)
    (room : allocateSlot E { session.map with nextId := session.map.nextId + 1 } ≠ none) :
    ∃ session', sessionStep E session op = some session' := by
  cases op with
  | register value counted =>
    obtain ⟨result, registered⟩ :=
      handlemapRegister_defined related.wf value.val (refModeOf counted) room
    exact ⟨_, congrArg (Option.map _) registered⟩
  | copy token =>
    obtain ⟨n, owner, rfl⟩ := Option.map_eq_some_iff.mp allowed
    obtain ⟨object, -, inside, record⟩ := related.record owner
    have held := related.held_iff.mpr ⟨n, owner, rfl⟩
    have fewer := few n
    rw [count_push, if_pos rfl] at fewer
    obtain ⟨result, copied⟩ := handlemapCopy_defined ⟨n + 1, session.map.self⟩
      (related.wf.tryget inside) fun counted => by
        rw [record.refmode, refModeOf_count] at counted
        rw [record.refcount counted]
        omega
    rw [sessionStep, held, Option.bind_some, copied]
    exact ⟨_, rfl⟩
  | use token =>
    obtain ⟨n, owner, rfl⟩ := Option.map_eq_some_iff.mp allowed
    obtain ⟨object, -, inside, -⟩ := related.record owner
    have held := related.held_iff.mpr ⟨n, owner, rfl⟩
    rw [sessionStep, held, Option.bind_some, handleUse, related.wf.tryget inside]
    exact ⟨_, rfl⟩
  | drop token =>
    obtain ⟨n, owner, rfl⟩ := Option.map_eq_some_iff.mp allowed
    exact drop_defined related owner

end Steps

end Vaudou
