/-
**The console variables of `cvar.c`.**

A store is a string map of values and a hook. `vd_cvs_set` puts the value of a new name into the map;
for a name that is there it calls the hook with the new value, and leaves the map as it is.

* `cvsRun_store` — a get returns the last value that was set, and the subscribers are called as they
  should, in exactly the runs whose last values are the first ones.
-/

import Vaudou.Delegate.Hook
import Vaudou.StrMap.Lookup

namespace Vaudou

open Vaudou.Memory Vaudou.Run

/-- `VD_CVarType`. -/
inductive CVarType where
  | i32 | f32 | bool
deriving DecidableEq, Repr

/-- The number of a type. -/
def CVarType.number : CVarType → Nat
  | .i32 => 0
  | .f32 => 1
  | .bool => 2

/-- `VD_CVarValue`: the type, and the four bytes of the union. -/
structure CVarValue where
  type : CVarType
  v : UInt32
deriving DecidableEq, Repr

/-- The bytes of a value. -/
def CVarValue.bytes (value : CVarValue) : List UInt8 :=
  leBytes 4 value.type.number ++ leBytes 4 value.v.toNat

/-- `VD_CVS`, and the calls of subscribers so far. -/
structure CVarStore where
  map : StrMapState
  hook : List HookEntry
  calls : List (HookCall (List UInt8 × CVarValue))

section Store

variable (A : BlockAlloc)

/-- `vd_cvs_init`, with the capacity `VD_STRMAP_DEFAULT_CAP`. -/
def cvsInit (allocator : Nat) (behind : Nat → StrBin) (heap : BlockHeap) (hook : List HookEntry) :
    CVarStore :=
  ⟨⟨strmapInit allocator 8 2048 behind, heap, []⟩, hook, []⟩

/-- `vd_cvs_get`. -/
def cvsGet (cvs : CVarStore) (name : List UInt8) : Option (Option (List UInt8)) :=
  strmapGet A cvs.map name

/-- `vd_cvs_set`. The assertion is on the type, the first four bytes. -/
def cvsSet (cvs : CVarStore) (set : List UInt8 × CVarValue) : Option CVarStore :=
  (strmapGet A cvs.map set.1).bind fun
    | some cvar =>
      if cvar.take 4 ≠ set.2.bytes.take 4 then none
      else some { cvs with calls := cvs.calls ++ hookInvoke cvs.hook set }
    | none => (strmapSet A cvs.map set.1 set.2.bytes).map fun written => { cvs with map := written.1 }

end Store

/-! ### What should come out of a run -/

/-- The value that was set first. -/
def firstValue (sets : List (List UInt8 × CVarValue)) (name : List UInt8) : Option CVarValue :=
  (sets.find? fun set => set.1 == name).map Prod.snd

/-- The value that was set last. -/
def lastValue (sets : List (List UInt8 × CVarValue)) (name : List UInt8) : Option CVarValue :=
  firstValue sets.reverse name

/-- **The calls of a run** behind the sets `done`: every subscriber is called for every set of a name
that is there. -/
def notifications (hook : List HookEntry) : (done rest : List (List UInt8 × CVarValue)) →
    List (HookCall (List UInt8 × CVarValue))
  | _, [] => []
  | done, set :: rest =>
    (if (firstValue done set.1).isSome then hookInvoke hook set else []) ++
      notifications hook (done ++ [set]) rest

/-- The set is defined: its name is there, or `copy_key` can store it. -/
def CVarStore.Stores (cvs : CVarStore) (set : List UInt8 × CVarValue) : Prop :=
  (cvs.map.map.bins (cvs.map.map.home set.1)).used = true ∨
    cvs.map.map.Storable set.1 (cvs.map.map.home set.1)

instance (cvs : CVarStore) (set : List UInt8 × CVarValue) : Decidable (cvs.Stores set) :=
  inferInstanceAs (Decidable (_ ∨ _))

section Runs

variable {A : BlockAlloc} {start cvs cvs' : CVarStore} {name : List UInt8} {value : CVarValue}
  {set : List UInt8 × CVarValue} {done rest sets : List (List UInt8 × CVarValue)}

/-! ### Lists of sets -/

theorem CVarValue.bytes_injective {value value' : CVarValue} (same : value.bytes = value'.bytes) :
    value = value' := by
  obtain ⟨types, vs⟩ := List.append_inj same (by rw [leBytes_length, leBytes_length])
  have number : ∀ type : CVarType, leValue (leBytes 4 type.number) = type.number := by
    rintro (_ | _ | _) <;> rfl
  have small : ∀ v : UInt32, v.toNat % 256 ^ 4 = v.toNat := fun v => Nat.mod_eq_of_lt v.toNat_lt
  have v := congrArg leValue vs
  rw [leValue_leBytes, leValue_leBytes, small, small] at v
  have type := congrArg leValue types
  rw [number, number] at type
  have injective : ∀ type type' : CVarType, type.number = type'.number → type = type' := by
    rintro (_ | _ | _) (_ | _ | _) same <;> first | rfl | cases same
  obtain ⟨t, v₀⟩ := value
  obtain ⟨t', v₁⟩ := value'
  obtain rfl := injective t t' type
  obtain rfl := UInt32.toNat_inj.mp v
  rfl

/-- The type is in the first four bytes. -/
theorem CVarValue.take_bytes (value : CVarValue) :
    value.bytes.take 4 = leBytes 4 value.type.number :=
  List.take_left' (leBytes_length _ _)

theorem firstValue_append_mem {value : CVarValue} (found : firstValue done name = some value) :
    firstValue (done ++ rest) name = some value := by
  obtain ⟨set, found, same⟩ := Option.map_eq_some_iff.mp found
  exact Option.map_eq_some_iff.mpr ⟨set, by rw [List.find?_append, found, Option.some_or], same⟩

theorem firstValue_append (missing : firstValue done name = none) :
    firstValue (done ++ rest) name = firstValue rest name := by
  rw [firstValue, Option.map_eq_none_iff] at missing
  rw [firstValue, List.find?_append, missing, Option.none_or]
  rfl

theorem firstValue_mem (found : firstValue sets name = some value) : (name, value) ∈ sets := by
  obtain ⟨set, first, rfl⟩ := Option.map_eq_some_iff.mp found
  have same : set.1 = name := by simpa using List.find?_some first
  rw [← same]
  exact List.mem_of_find?_eq_some first

theorem firstValue_isSome (member : set ∈ sets) : ∃ value, firstValue sets set.1 = some value := by
  have found : (sets.find? fun other => other.1 == set.1).isSome = true := by
    rw [List.find?_isSome]
    exact ⟨set, member, beq_self_eq_true _⟩
  obtain ⟨other, found⟩ := Option.isSome_iff_exists.mp found
  exact ⟨other.2, Option.map_eq_some_iff.mpr ⟨other, found, rfl⟩⟩

/-- A name has a last value if it has a first one. -/
theorem lastValue_isSome (sets : List (List UInt8 × CVarValue)) (name : List UInt8) :
    (lastValue sets name).isSome = (firstValue sets name).isSome := by
  rw [Bool.eq_iff_iff]
  constructor <;> intro some_
  · obtain ⟨value, found⟩ := Option.isSome_iff_exists.mp some_
    obtain ⟨first, found⟩ := firstValue_isSome (List.mem_reverse.mp (firstValue_mem found))
    exact Option.isSome_iff_exists.mpr ⟨first, found⟩
  · obtain ⟨value, found⟩ := Option.isSome_iff_exists.mp some_
    obtain ⟨last, found⟩ := firstValue_isSome (List.mem_reverse.mpr (firstValue_mem found))
    exact Option.isSome_iff_exists.mpr ⟨last, found⟩

theorem notifications_append (hook : List HookEntry) : ∀ (done rest : List (List UInt8 × CVarValue)),
    notifications hook done (rest ++ [set]) = notifications hook done rest ++
      if (firstValue (done ++ rest) set.1).isSome then hookInvoke hook set else []
  | done, [] => by
    rw [List.nil_append, notifications, notifications, notifications, List.append_nil, List.append_nil,
      List.nil_append]
  | done, first :: rest => by
    rw [List.cons_append, notifications, notifications, notifications_append hook (done ++ [first]) rest,
      List.append_assoc, List.append_assoc]
    rfl

/-! ### One set -/

/-- **The store behind the sets `done`**: it has the first value of every name, and its bins are taken
by these names only. -/
structure StoreTracks (A : BlockAlloc) (start : CVarStore) (done : List (List UInt8 × CVarValue))
    (cvs : CVarStore) : Prop where
  sound : cvs.map.Sound
  home : ∀ name, cvs.map.map.home name = start.map.map.home name
  holds : ∀ {name value}, firstValue done name = some value → cvs.map.Holds name value.bytes
  taken : ∀ name, (cvs.map.map.bins (cvs.map.map.home name)).used = true →
    ∃ set ∈ done, start.map.map.home set.1 = start.map.map.home name
  hook : cvs.hook = start.hook
  calls : cvs.calls = start.calls ++ notifications start.hook [] done
  granted : ∃ used ≤ (done.map fun set => set.1.length).sum,
    Granted A start.map.heap cvs.map.heap used

/-- The names of a run do not collide. -/
def NamesApart (start : CVarStore) (sets : List (List UInt8 × CVarValue)) : Prop :=
  ∀ set ∈ sets, ∀ other ∈ sets,
    start.map.map.home set.1 = start.map.map.home other.1 → set.1 = other.1

/-- One type is used for a name. -/
def OneType (sets : List (List UInt8 × CVarValue)) : Prop :=
  ∀ set ∈ sets, ∀ other ∈ sets, set.1 = other.1 → set.2.type = other.2.type

/-- **A set of a name that is there** calls the subscribers. -/
theorem StoreTracks.update (tracks : StoreTracks A start done cvs) {first : CVarValue}
    (present : firstValue done set.1 = some first) (type : first.type = set.2.type) :
    cvsSet A cvs set = some { cvs with calls := cvs.calls ++ hookInvoke cvs.hook set } ∧
      StoreTracks A start (done ++ [set])
        { cvs with calls := cvs.calls ++ hookInvoke cvs.hook set } := by
  have got := (strmapGet_iff (A := A) tracks.sound).mpr (tracks.holds present)
  constructor
  · have same : ¬ first.bytes.take 4 ≠ set.2.bytes.take 4 := by
      rw [first.take_bytes, set.2.take_bytes, type]
      exact not_not.mpr rfl
    rw [cvsSet, got, Option.bind_some]
    exact if_neg same
  · obtain ⟨used, few, granted⟩ := tracks.granted
    refine ⟨tracks.sound, tracks.home, fun {name value} found => ?_, fun name taken => ?_, tracks.hook,
      ?_, used, ?_, granted⟩
    · cases before : firstValue done name with
      | some earlier =>
        rw [firstValue_append_mem before] at found
        obtain rfl := Option.some.inj found
        exact tracks.holds before
      | none =>
        rw [firstValue_append before] at found
        obtain rfl : name = set.1 := congrArg Prod.fst (List.mem_singleton.mp (firstValue_mem found))
        rw [before] at present
        cases present
    · obtain ⟨other, member, same⟩ := tracks.taken name taken
      exact ⟨other, List.mem_append_left _ member, same⟩
    · show cvs.calls ++ hookInvoke cvs.hook set = _
      rw [notifications_append, List.nil_append, present, tracks.calls, tracks.hook, List.append_assoc]
      rfl
    · rw [List.map_append, List.sum_append]
      omega

/-- **A set of a new name** puts its value into the map, if `copy_key` can store the name. -/
theorem StoreTracks.create (tracks : StoreTracks A start done cvs)
    (absent : firstValue done set.1 = none)
    (free : (cvs.map.map.bins (cvs.map.map.home set.1)).used = false)
    (room : (A.alloc cvs.map.heap (set.1.length - 43)).isSome = true) :
    ((∃ cvs', cvsSet A cvs set = some cvs') ↔
        cvs.map.map.Storable set.1 (cvs.map.map.home set.1)) ∧
      ∀ cvs', cvsSet A cvs set = some cvs' → StoreTracks A start (done ++ [set]) cvs' := by
  have unfound : strmapGet A cvs.map set.1 = some none := by
    unfold strmapGet strmapGetBin
    rw [findBin_sound tracks.sound, if_neg fun both => Bool.false_ne_true (free ▸ both.1)]
    rfl
  have result : cvsSet A cvs set =
      (takeBin A cvs.map set.1 (cvs.map.map.home set.1)).map fun t =>
        { cvs with map := t.setValue (cvs.map.map.home set.1) set.2.bytes } := by
    rw [cvsSet, unfound, Option.bind_some, strmapSet_free tracks.sound free, Option.map_map]
    rfl
  rw [result]
  constructor
  · rw [← takeBin_storable room]
    constructor
    · rintro ⟨cvs', took⟩
      obtain ⟨t, took, -⟩ := Option.map_eq_some_iff.mp took
      exact ⟨t, took⟩
    · rintro ⟨t, took⟩
      exact ⟨_, Option.map_eq_some_iff.mpr ⟨t, took, rfl⟩⟩
  · intro cvs' wrote
    obtain ⟨t, took, rfl⟩ := Option.map_eq_some_iff.mp wrote
    have takes := takeBin_takes took
    obtain ⟨used, few, granted⟩ := tracks.granted
    have stored := takeBin_granted granted took
    have home := takes.home
    have others : ∀ name, cvs.map.map.home name ≠ cvs.map.map.home set.1 →
        ((t.setValue (cvs.map.map.home set.1) set.2.bytes).map.bins (cvs.map.map.home name)) =
          cvs.map.map.bins (cvs.map.map.home name) := fun name ne =>
      (t.setValue_other _ ne).trans (takes.others _ ne)
    refine ⟨(takes.sound tracks.sound).setValue _ _, fun name => (home name).trans (tracks.home name),
      fun {name value} found => ?_, fun name taken => ?_, tracks.hook, ?_, _, ?_, stored⟩
    · cases before : firstValue done name with
      | some earlier =>
        rw [firstValue_append_mem before] at found
        obtain rfl := Option.some.inj found
        exact takes.keeps free (tracks.holds before)
      | none =>
        rw [firstValue_append before] at found
        obtain rfl := List.mem_singleton.mp (firstValue_mem found)
        have used : (t.map.bins (t.map.home name)).used = true := home name ▸ takes.used
        have stored : KeyAt t.heap (t.map.bins (t.map.home name)) name := home name ▸ takes.stored
        have holds := holds_setValue used stored value.bytes
        rwa [home] at holds
    · by_cases same : cvs.map.map.home name = cvs.map.map.home set.1
      · refine ⟨set, List.mem_append_right _ (List.mem_singleton.mpr rfl), ?_⟩
        rw [← tracks.home, ← tracks.home, same]
      · have bin := others name same
        have homeName : (t.setValue (cvs.map.map.home set.1) set.2.bytes).map.home name =
            cvs.map.map.home name := home name
        rw [homeName, bin] at taken
        obtain ⟨other, member, same⟩ := tracks.taken name taken
        exact ⟨other, List.mem_append_left _ member, same⟩
    · show cvs.calls = _
      rw [notifications_append, List.nil_append, absent, tracks.calls]
      simp
    · rw [List.map_append, List.sum_append, List.map_singleton, List.sum_singleton]
      omega

/-! ### Runs -/

/-- **A set that is admitted** keeps what the store tracks; one that is not is undefined. -/
theorem StoreTracks.step (tracks : StoreTracks A start done cvs) (member : set ∈ sets)
    (among : ∀ other ∈ done, other ∈ sets) (oneType : OneType sets) (apart : NamesApart start sets)
    (room : (A.alloc cvs.map.heap (set.1.length - 43)).isSome = true) :
    ((∃ cvs', cvsSet A cvs set = some cvs') ↔ cvs.Stores set) ∧
      ∀ cvs', cvsSet A cvs set = some cvs' → StoreTracks A start (done ++ [set]) cvs' := by
  cases before : firstValue done set.1 with
  | some first =>
    have type := oneType _ (among _ (firstValue_mem before)) set member rfl
    obtain ⟨result, next⟩ := tracks.update before type
    rw [result]
    refine ⟨iff_of_true ⟨_, rfl⟩ (Or.inl (tracks.holds before).used), fun cvs' same => ?_⟩
    obtain rfl := Option.some.inj same
    exact next
  | none =>
    -- the home bin is free: a name that took it would be this one
    have free : (cvs.map.map.bins (cvs.map.map.home set.1)).used = false := by
      by_contra taken
      obtain ⟨other, earlier, same⟩ := tracks.taken set.1 (Bool.not_eq_false _ ▸ taken)
      have name := apart other (among other earlier) set member same
      obtain ⟨first, found⟩ := firstValue_isSome earlier
      rw [name, before] at found
      cases found
    obtain ⟨defined, next⟩ := tracks.create before free room
    refine ⟨defined.trans ⟨Or.inr, fun admits => ?_⟩, next⟩
    rcases admits with used | storable
    · rw [free] at used
      cases used
    · exact storable

/-- **A run** is defined if every set is admitted, and tracks its sets. -/
theorem StoreTracks.run (oneType : OneType sets) (apart : NamesApart start sets)
    (roomy : Roomy A start.map.heap (sets.map fun set => set.1.length).sum) :
    ∀ (rest done : List (List UInt8 × CVarValue)) {cvs : CVarStore}, done ++ rest = sets →
      StoreTracks A start done cvs →
        ((∃ cvs', run (cvsSet A) cvs rest = some cvs') ↔ Along (cvsSet A) CVarStore.Stores cvs rest) ∧
          ∀ cvs', run (cvsSet A) cvs rest = some cvs' → StoreTracks A start sets cvs'
  | [], done, cvs, split, tracks => by
    rw [List.append_nil] at split
    subst split
    refine ⟨iff_of_true ⟨cvs, rfl⟩ trivial, fun cvs' ran => ?_⟩
    cases ran
    exact tracks
  | set :: rest, done, cvs, split, tracks => by
    have member : set ∈ sets := by
      rw [← split]
      exact List.mem_append_right _ List.mem_cons_self
    have room : (A.alloc cvs.map.heap (set.1.length - 43)).isSome = true := by
      obtain ⟨used, few, granted⟩ := tracks.granted
      refine roomy _ used _ granted ?_
      rw [← split, List.map_append, List.sum_append, List.map_cons, List.sum_cons]
      omega
    obtain ⟨defined, next⟩ := tracks.step member
      (fun other earlier => split ▸ List.mem_append_left _ earlier) oneType apart room
    have later : ∀ cvs', cvsSet A cvs set = some cvs' → _ := fun cvs' stepped =>
      StoreTracks.run oneType apart roomy rest (done ++ [set]) (by rw [List.append_assoc]; exact split)
        (next cvs' stepped)
    constructor
    · constructor
      · rintro ⟨cvs', ran⟩
        obtain ⟨middle, stepped, ran⟩ := run_cons_some.mp ran
        refine ⟨defined.mp ⟨middle, stepped⟩, fun other stepped' => ?_⟩
        obtain rfl := Option.some.inj (stepped.symm.trans stepped')
        exact (later middle stepped).1.mp ⟨cvs', ran⟩
      · rintro ⟨admits, along⟩
        obtain ⟨middle, stepped⟩ := defined.mpr admits
        obtain ⟨cvs', ran⟩ := (later middle stepped).1.mpr (along middle stepped)
        exact ⟨cvs', run_cons_some.mpr ⟨middle, stepped, ran⟩⟩
    · intro cvs' ran
      obtain ⟨middle, stepped, ran⟩ := run_cons_some.mp ran
      exact (later middle stepped).2 cvs' ran

theorem cvsInit_tracks (A : BlockAlloc) (allocator : Nat) (behind : Nat → StrBin) (heap : BlockHeap)
    (hook : List HookEntry) :
    StoreTracks A (cvsInit allocator behind heap hook) [] (cvsInit allocator behind heap hook) where
  sound := strmapInit_sound (by norm_num)
  home _ := rfl
  holds found := nomatch found
  taken name used := by
    have sound : (cvsInit allocator behind heap hook).map.Sound := strmapInit_sound (by norm_num)
    have inside : (cvsInit allocator behind heap hook).map.map.home name < 2048 := sound.home_lt name
    have zero : (cvsInit allocator behind heap hook).map.map.bins
        ((cvsInit allocator behind heap hook).map.map.home name) = .zero 8 := if_pos inside
    rw [zero] at used
    cases used
  hook := rfl
  calls := by
    rw [notifications, List.append_nil]
  granted := ⟨0, Nat.zero_le _, .start⟩

/-- **The store works as it should, in exactly the runs** in which the last value of every name is its
first one, and every name can be stored: a get returns the last value that was set, and every set of a
name that is there calls every subscriber once, with the name and the new value. -/
theorem cvsRun_store (A : BlockAlloc) {allocator : Nat} {behind : Nat → StrBin} {heap : BlockHeap}
    {hook : List HookEntry} (oneType : OneType sets)
    (apart : NamesApart (cvsInit allocator behind heap hook) sets)
    (roomy : Roomy A heap (sets.map fun set => set.1.length).sum) :
    (∃ cvs, run (cvsSet A) (cvsInit allocator behind heap hook) sets = some cvs ∧
        (∀ name value, lastValue sets name = some value →
          cvsGet A cvs name = some (some value.bytes)) ∧
        cvs.calls = notifications hook [] sets) ↔
      (∀ name, firstValue sets name = lastValue sets name) ∧
        Along (cvsSet A) CVarStore.Stores (cvsInit allocator behind heap hook) sets := by
  obtain ⟨defined, tracked⟩ := StoreTracks.run oneType apart roomy sets [] rfl
    (cvsInit_tracks A allocator behind heap hook)
  constructor
  · rintro ⟨cvs, ran, gets, -⟩
    refine ⟨fun name => ?_, defined.mp ⟨cvs, ran⟩⟩
    have tracks := tracked cvs ran
    cases last : lastValue sets name with
    | none =>
      have missing := lastValue_isSome sets name
      rw [last] at missing
      exact Option.isNone_iff_eq_none.mp (by simpa using missing.symm)
    | some value =>
      have some_ := lastValue_isSome sets name
      rw [last] at some_
      obtain ⟨first, found⟩ := Option.isSome_iff_exists.mp some_.symm
      have got := (strmapGet_iff (A := A) tracks.sound).mpr (tracks.holds found)
      have same : some (some value.bytes) = some (some first.bytes) :=
        (gets name value last).symm.trans got
      rw [found, CVarValue.bytes_injective (Option.some.inj (Option.some.inj same))]
  · rintro ⟨same, along⟩
    obtain ⟨cvs, ran⟩ := defined.mpr along
    have tracks := tracked cvs ran
    refine ⟨cvs, ran, fun name value last => ?_, ?_⟩
    · exact (strmapGet_iff tracks.sound).mpr (tracks.holds ((same name).trans last))
    · rw [tracks.calls]
      rfl

/-- A store with two subscribers. -/
def subscribedStore : CVarStore :=
  cvsInit 64 (fun _ => StrBin.zero 8) ⟨fun _ => 0, []⟩ [⟨1, 10⟩, ⟨2, 20⟩]

theorem cvsRun_store_pair :
    let sets : List (List UInt8 × CVarValue) :=
      [([97], ⟨.i32, 7⟩), ([98, 99], ⟨.bool, 1⟩), ([97], ⟨.i32, 7⟩)]
    ∃ cvs, run (cvsSet .bump) subscribedStore sets = some cvs ∧
      (∀ name value, lastValue sets name = some value →
        cvsGet .bump cvs name = some (some value.bytes)) ∧
      cvs.calls = notifications [⟨1, 10⟩, ⟨2, 20⟩] [] sets := by
  refine (cvsRun_store .bump ?_ ?_ ?_).mpr ⟨fun name => rfl, by decide +kernel⟩
  · unfold OneType
    decide +kernel
  · unfold NamesApart
    decide +kernel
  · exact BlockAlloc.bump_roomy (by decide +kernel)

/-- **An update is not stored**: after 1 and then 2 were set, a get returns 1. -/
theorem update_not_stored :
    let sets : List (List UInt8 × CVarValue) := [([97], ⟨.i32, 1⟩), ([97], ⟨.i32, 2⟩)]
    ((run (cvsSet .bump) subscribedStore sets).bind fun cvs => cvsGet .bump cvs [97]) =
        some (some (CVarValue.bytes ⟨.i32, 1⟩)) ∧
      lastValue sets [97] = some ⟨.i32, 2⟩ ∧
        CVarValue.bytes ⟨.i32, 1⟩ ≠ CVarValue.bytes ⟨.i32, 2⟩ := by
  decide +kernel

end Runs

end Vaudou
