/-
**What the user of an integer map relies on: absent keys are not found, and calls leave other keys alone.**

A session is a map with the keys that its user set and did not delete since, and with the entries that
deletions took out of use. A walk takes an entry that is not in use for the one it looks for, so both of the
user's expectations fail where a walk comes across one.

* `intmapTryget_present_iff` — when a get that returns 1 is one of a key that is there.
* `intmapFrame_iff` — when deletions, and the sets that fill an entry again, change no other key.
-/

import Vaudou.IntMap.Runs

namespace Vaudou

open Vaudou.Links Vaudou.Run

/-- An integer map, with the keys that were set and not deleted since, and the entries of its table that
were deleted. -/
structure IntMapSession where
  map : IntMap
  present : Nat → Bool
  freed : Nat → Bool

/-- The session of a fresh map. -/
def intmapSession (P : IntMapParams) (capTotal : Nat) (noAutogrow : Bool) : IntMapSession where
  map := intmapInit P capTotal noAutogrow
  present _ := false
  freed _ := false

/-- A call of the user. A set that returns 0 sets nothing, and a map that grows has a new table. -/
def intmapSessionStep (P : IntMapParams) (s : IntMapSession) : IntMapOp → Option IntMapSession
  | .set k v => (s.map.guarded (intmapSet P s.map k v)).map fun placed =>
    { map := placed.2
      present := if placed.1 then Function.update s.present k true else s.present
      freed := if placed.2.capTotal = s.map.capTotal then s.freed else fun _ => false }
  | .del k => (s.map.guarded (intmapDel P s.map k)).map fun after =>
    { map := after
      present := Function.update s.present k false
      freed := fun i => s.freed i || ((s.map.table i).used && !(after.table i).used) }

section Lookups

variable {P : IntMapParams} {map after : IntMap} {k v curr : Nat} {chain : Option Nat}

theorem intmapStops_false {i : Nat} : intmapStops map k i = false ↔
    (map.table i).used = true ∧ (map.table i).k ≠ k := by
  simp [intmapStops]

/-- What a get depends on: the entries that its walk visits. -/
theorem intmapTryget_congr (cap : after.cap = map.cap) (capTotal : after.capTotal = map.capTotal)
    (same : ∀ c, Linked (upTo map.next (intmapStops map k)) (intmapIndex P map k) c →
      intmapStops after k c = intmapStops map k c ∧ after.next c = map.next c ∧
        (after.table c).v = (map.table c).v) :
    intmapTryget P after k = intmapTryget P map k := by
  have walked : follow after.next (intmapStops after k) (map.capTotal + 1) (intmapIndex P map k) =
      follow map.next (intmapStops map k) (map.capTotal + 1) (intmapIndex P map k) :=
    follow_congr fun c looks => ⟨(same c looks).1, fun _ => (same c looks).2.1⟩
  rw [intmapTryget, intmapTryget, intmapIndex, cap, capTotal, ← intmapIndex, walked]
  rcases found : follow map.next (intmapStops map k) (map.capTotal + 1) (intmapIndex P map k)
    with _ | _ | i
  · rfl
  · rfl
  · exact congrArg (fun value => some (some value)) (same i (follow_found found).1).2.2

/-- A walk ends in every map of a run. -/
def IntMap.Ends (P : IntMapParams) (map : IntMap) : Prop :=
  ∀ k, follow map.next (intmapStops map k) (map.capTotal + 1) (intmapIndex P map k) ≠ none

theorem IntMap.Threaded.ends (threaded : map.Threaded) : map.Ends P := fun k =>
  threaded.walk_ends _ (threaded.index_lt k) (Nat.le_succ _)

/-- A get that returns 1 stopped at an entry with the value. -/
theorem IntMap.Ends.tryget_some (ends : map.Ends P) :
    intmapTryget P map k = some (some v) ↔
      ∃ i, Linked (upTo map.next (intmapStops map k)) (intmapIndex P map k) i ∧
        intmapStops map k i = true ∧ (map.table i).v = v := by
  unfold intmapTryget
  constructor
  · intro got
    obtain ⟨found, walked, value⟩ := Option.map_eq_some_iff.mp got
    obtain ⟨i, rfl, value⟩ := Option.map_eq_some_iff.mp value
    obtain ⟨path, stops⟩ := follow_found walked
    exact ⟨i, path, stops, Option.some.inj value⟩
  · rintro ⟨i, path, stops, rfl⟩
    rw [(follow_found_iff (ends k)).mpr ⟨path, stops⟩]
    rfl

/-- A get that returns 0 passed every entry of the chain. -/
theorem IntMap.Ends.tryget_none (ends : map.Ends P) : intmapTryget P map k = some none ↔
    ∀ i, Linked map.next (intmapIndex P map k) i → intmapStops map k i = false := by
  rw [← follow_missed_iff (ends k), intmapTryget]
  constructor
  · intro got
    obtain ⟨found, walked, value⟩ := Option.map_eq_some_iff.mp got
    rw [walked, Option.map_eq_none_iff.mp value]
  · intro walked
    rw [walked]
    rfl

/-- **A get returns 1 or 0.** -/
theorem IntMap.Ends.tryget_cases (ends : map.Ends P) (k : Nat) :
    intmapTryget P map k = some none ∨ ∃ v, intmapTryget P map k = some (some v) := by
  rcases got : intmapTryget P map k with _ | _ | v
  · exact absurd (Option.map_eq_none_iff.mp got) (ends k)
  · exact Or.inl rfl
  · exact Or.inr ⟨v, rfl⟩

end Lookups

/-! ### Keys that are not there -/

section Absent

variable {P : IntMapParams}

/-- The maps of a session: links are acyclic, or there is no table. -/
def IntMapSession.Valid (s : IntMapSession) : Prop :=
  s.map.Threaded ∨ (s.map.cap = 0 ∧ (∀ i, (s.map.table i).used = false) ∧ ∀ i, s.freed i = false)

theorem intmapSession_valid (P : IntMapParams) (capTotal : Nat) (noAutogrow : Bool) :
    (intmapSession P capTotal noAutogrow).Valid := by
  rcases Nat.eq_zero_or_pos capTotal with rfl | pos
  · exact Or.inr ⟨Nat.le_zero.mp (P.reducedCap_le 0), fun _ => rfl, fun _ => rfl⟩
  · exact Or.inl (intmapInit_threaded P pos noAutogrow)

/-- The map of a session goes through the calls of a run. -/
theorem intmapSessionStep_map {s s' : IntMapSession} {op : IntMapOp}
    (stepped : intmapSessionStep P s op = some s') : intmapStep P s.map op = some s'.map := by
  cases op with
  | set k v =>
    obtain ⟨placed, called, rfl⟩ := Option.map_eq_some_iff.mp stepped
    rw [intmapStep, called]
    rfl
  | del k =>
    obtain ⟨after, called, rfl⟩ := Option.map_eq_some_iff.mp stepped
    rw [intmapStep, called]

theorem IntMapSession.Valid.step {s s' : IntMapSession} {op : IntMapOp} (valid : s.Valid)
    (stepped : intmapSessionStep P s op = some s') : s'.Valid := by
  have called := intmapSessionStep_map stepped
  rcases valid with threaded | ⟨buckets, -⟩
  · obtain ⟨next, stepped', threaded'⟩ := threaded.step (P := P) op
    rw [stepped'] at called
    exact Or.inl (Option.some.inj called ▸ threaded')
  · cases op with
    | set k v =>
      rw [intmapStep, IntMap.guarded, if_pos buckets] at called
      cases called
    | del k =>
      rw [intmapStep, IntMap.guarded, if_pos buckets] at called
      cases called

/-- A walk through a map without a table ends where it starts. -/
theorem IntMapSession.Valid.ends {s : IntMapSession} (valid : s.Valid) : s.map.Ends P := by
  rcases valid with threaded | ⟨-, unused, -⟩
  · exact threaded.ends
  · intro k
    rw [follow, if_pos (intmapStops_unused (unused _))]
    exact Option.some_ne_none _

end Absent

/-! ### Keys that are left alone -/

section Frame

variable {P : IntMapParams} {map after : IntMap} {k v curr : Nat} {chain : Option Nat}

def IntMapOp.key : IntMapOp → Nat
  | .set k _ => k
  | .del k => k

/-- A call of a user who sets absent keys only. -/
def intmapFreshStep (P : IntMapParams) (s : IntMapSession) : IntMapOp → Option IntMapSession
  | .set k v => if s.present k then none else intmapSessionStep P s (.set k v)
  | .del k => intmapSessionStep P s (.del k)

/-- The call took an entry of the same table into use that a deletion had freed. -/
def IntMapSession.Reuses (s s' : IntMapSession) : Prop :=
  s'.map.capTotal = s.map.capTotal ∧ ∃ i, s.freed i = true ∧ (s.map.table i).used = false ∧
    (s'.map.table i).used = true

/-- The calls that are to leave other keys alone: deletions, and sets that fill a freed entry. -/
def IntMapSession.Framed (s s' : IntMapSession) : IntMapOp → Prop
  | .set _ _ => s.Reuses s'
  | .del _ => True

/-- A get of another key that is there returns what it returned before. -/
def IntMapSession.Frames (P : IntMapParams) (s : IntMapSession) (op : IntMapOp) : Prop :=
  ∀ s', intmapFreshStep P s op = some s' → s.Framed s' op →
    ∀ k, k ≠ op.key → s.present k = true → intmapTryget P s'.map k = intmapTryget P s.map k

/-- The entry that `vd_intmap_set` writes to, if it is free. -/
def intmapFills (P : IntMapParams) (map : IntMap) (k : Nat) : Nat :=
  if (map.table (intmapIndex P map k)).used then
    intmapFreeScan map map.capTotal (intmapIndex P map k)
  else intmapIndex P map k

/-- The walk of a get visits the entry. -/
def IntMap.Visits (P : IntMapParams) (map : IntMap) (k i : Nat) : Prop :=
  Linked (upTo map.next (intmapStops map k)) (intmapIndex P map k) i

/-- The entry that is deleted is not on the way to another key that is there, unless that one's value is 0;
and a freed entry that is filled is not one at which the walk of such a key stops. -/
def IntMapSession.Apart (P : IntMapParams) (s : IntMapSession) : IntMapOp → Prop
  | .set k _ => s.present k = false → s.freed (intmapFills P s.map k) = true →
    (s.map.table (intmapFills P s.map k)).used = false →
      ∀ k', k' ≠ k → s.present k' = true → ¬ s.map.Visits P k' (intmapFills P s.map k)
  | .del k => ∀ e, s.map.Finds P k e → ∀ k', k' ≠ k → s.present k' = true → s.map.Visits P k' e →
    ∃ i, s.map.Visits P k' i ∧ intmapStops s.map k' i = true ∧ (s.map.table i).v = 0

/-- An entry that was not in use is cleared again. -/
theorem intmapClear_unused (threaded : map.Threaded) {entry : Nat}
    (unused : (map.table entry).used = false) (key : Nat) :
    intmapTryget P (intmapClear map entry) key = intmapTryget P map key := by
  refine intmapTryget_congr rfl rfl fun c _ => ?_
  rw [intmapClear_next]
  by_cases same : c = entry
  · subst same
    refine ⟨?_, rfl, ?_⟩
    · rw [intmapStops_unused unused, intmapStops_unused (by rw [intmapClear_entry])]
    · rw [intmapClear_entry, threaded.zeroed c unused]
  · rw [intmapStops, intmapStops, intmapClear_other same]
    exact ⟨rfl, rfl, rfl⟩

/-- **A get behind the deletion of another key** stops at the entry that was cleared, if it visits it. -/
theorem intmapClear_used (threaded : map.Threaded) {entry key : Nat}
    (used : (map.table entry).used = true) (other : (map.table entry).k ≠ key) :
    intmapTryget P (intmapClear map entry) key = intmapTryget P map key ↔
      (map.Visits P key entry → ∃ i, map.Visits P key i ∧ intmapStops map key i = true ∧
        (map.table i).v = 0) := by
  have ends : map.Ends P := threaded.ends
  have ends' : (intmapClear map entry).Ends P := (intmapClear_threaded threaded entry).ends
  have stops_other : ∀ c, c ≠ entry →
      intmapStops (intmapClear map entry) key c = intmapStops map key c := by
    intro c different
    rw [intmapStops, intmapStops, intmapClear_other different]
  by_cases visits : map.Visits P key entry
  · -- the walk now ends at the cleared entry
    have path : (intmapClear map entry).Visits P key entry := by
      refine Linked.mono_to (fun x y different link => ?_) visits
      rw [upTo, intmapClear_next, stops_other x different]
      exact link
    have stops : intmapStops (intmapClear map entry) key entry = true :=
      intmapStops_unused (by rw [intmapClear_entry])
    have got : intmapTryget P (intmapClear map entry) key = some (some 0) :=
      ends'.tryget_some.mpr ⟨entry, path, stops, by rw [intmapClear_entry]⟩
    rw [got, eq_comm, ends.tryget_some]
    exact ⟨fun found _ => found, fun found => found visits⟩
  · refine iff_of_true (intmapTryget_congr rfl rfl fun c looks => ?_) fun path => absurd path visits
    have different : c ≠ entry := by
      rintro rfl
      exact visits looks
    rw [intmapClear_next, stops_other c different, intmapClear_other different]
    exact ⟨rfl, rfl, rfl⟩

theorem IntMap.StoresAt.stops_other (stores : map.StoresAt chain curr k v after) {key c : Nat}
    (different : c ≠ curr) : intmapStops after key c = intmapStops map key c := by
  rw [intmapStops, intmapStops, stores.used c different, stores.key c different]

theorem IntMap.StoresAt.passes_new (stores : map.StoresAt chain curr k v after) {key : Nat}
    (other : key ≠ k) : intmapStops after key curr = false := by
  rw [intmapStops_false, stores.entry]
  exact ⟨rfl, other.symm⟩

/-- What the walk of a get visits, it visits after a set: a walk that goes on is at an entry in use, whose
link stays. -/
theorem IntMap.StoresAt.visits (stores : map.StoresAt chain curr k v after) {key i : Nat}
    (path : map.Visits P key i) : after.Visits P key i := by
  rw [IntMap.Visits, stores.index]
  refine path.mono fun x y link => ?_
  rw [upTo] at link
  split at link
  · cases link
  · next goesOn =>
    have passes := Bool.eq_false_iff.mpr goesOn
    have different : x ≠ curr := by
      rintro rfl
      rw [intmapStops_unused stores.free] at passes
      cases passes
    rw [upTo_pass ((stores.stops_other different).trans passes)]
    exact stores.kept different link

/-- A chain is longer by the new entry at most. -/
theorem IntMap.StoresAt.linked (stores : map.StoresAt chain curr k v after) {key i : Nat}
    (path : Linked after.next (intmapIndex P after key) i) :
    Linked map.next (intmapIndex P map key) i ∨ i = curr := by
  rw [stores.index] at path
  refine path.closed (P := fun x => Linked map.next (intmapIndex P map key) x ∨ x = curr) ?_
    (Or.inl (.refl _ _))
  rintro x y before link
  obtain ⟨different, link | ⟨-, rfl⟩⟩ := stores.new link
  · exact Or.inl ((before.resolve_right different).push link)
  · exact Or.inr rfl

/-- **A get behind a set of another key** passes the new entry, if it stopped there. -/
theorem IntMap.StoresAt.frame_iff (threaded : map.Threaded)
    (stores : map.StoresAt chain curr k v after) {key : Nat} (other : key ≠ k) :
    intmapTryget P after key = intmapTryget P map key ↔ ¬ map.Visits P key curr := by
  have ends : map.Ends P := threaded.ends
  have ends' : after.Ends P := (stores.threaded threaded).ends
  have passesNew := stores.passes_new other
  by_cases visits : map.Visits P key curr
  · -- the new entry ends the chain
    refine iff_of_false (fun same => ?_) (not_not.mpr visits)
    have stopped : intmapTryget P map key = some (some (map.table curr).v) :=
      ends.tryget_some.mpr ⟨curr, visits, intmapStops_unused stores.free, rfl⟩
    rw [stopped] at same
    obtain ⟨i, path, stops, -⟩ := ends'.tryget_some.mp same
    have behind := path.last_of_stop stops (stores.visits visits)
    have last : upTo after.next (intmapStops after key) curr = none := by
      rw [upTo_pass passesNew, IntMap.next, stores.entry]
    rw [← behind.eq_of_last last, passesNew] at stops
    cases stops
  · refine iff_of_true ?_ visits
    rcases ends.tryget_cases key with none_ | ⟨w, found⟩
    · rw [none_, ends'.tryget_none]
      have passes := ends.tryget_none.mp none_
      intro i path
      by_cases same : i = curr
      · rw [same, passesNew]
      · rw [stores.stops_other same]
        exact passes i ((stores.linked path).resolve_right same)
    · rw [found, ends'.tryget_some]
      obtain ⟨i, path, stops, value⟩ := ends.tryget_some.mp found
      have different : i ≠ curr := by
        rintro rfl
        exact visits path
      exact ⟨i, stores.visits path, by rw [stores.stops_other different, stops],
        by rw [stores.value i different, value]⟩

theorem intmapFills_lt (threaded : map.Threaded) (k : Nat) : intmapFills P map k < map.capTotal := by
  unfold intmapFills
  split
  · exact intmapFreeScan_lt le_rfl (threaded.index_lt k)
  · exact threaded.index_lt k

/-- One deletion. -/
theorem IntMapSession.frames_del_iff {s : IntMapSession} (threaded : s.map.Threaded) (k : Nat) :
    s.Frames P (.del k) ↔ s.Apart P (.del k) := by
  obtain ⟨after, del, deleted⟩ := intmapDel_deleted (P := P) threaded k
  have frames : s.Frames P (.del k) ↔ ∀ key, key ≠ k → s.present key = true →
      intmapTryget P after key = intmapTryget P s.map key := by
    unfold IntMapSession.Frames
    rw [intmapFreshStep, intmapSessionStep, IntMap.guarded_eq threaded.cap_pos, del]
    constructor
    · exact fun holds => holds _ rfl trivial
    · intro holds s' stepped _
      obtain rfl := Option.some.inj stepped
      exact holds
  rw [frames]
  cases deleted with
  | missed passes =>
    refine iff_of_true (fun _ _ _ => rfl) fun e finds => ?_
    have goesOn := passes e finds.path.of_upTo
    rw [finds.stops] at goesOn
    cases goesOn
  | cleared entry path stops =>
    by_cases used : (s.map.table entry).used = true
    · have key := (intmapStops_iff used).mp stops
      have finds : s.map.Finds P k entry := ⟨path, used, key⟩
      constructor
      · intro holds e finds' key' other here
        obtain rfl := finds.unique finds'
        exact (intmapClear_used threaded used (by rw [key]; exact other.symm)).mp
          (holds key' other here)
      · intro apart key' other here
        exact (intmapClear_used threaded used (by rw [key]; exact other.symm)).mpr
          (apart entry finds key' other here)
    · have unused := Bool.eq_false_iff.mpr used
      refine iff_of_true (fun key _ _ => intmapClear_unused threaded unused key) fun e finds => ?_
      -- the walk stops at the entry that is not in use, before it comes to one with the key
      have behind := path.last_of_stop stops finds.path
      rw [behind.eq_of_last (upTo_stop finds.stops)] at finds
      exact absurd finds.used used

/-- If a set of an absent key has filled a freed entry of the table, the gets of the other keys return what
they returned before. -/
def IntMapSession.LeftAlone (P : IntMapParams) (s : IntMapSession) (k : Nat) (after : IntMap) : Prop :=
  s.present k = false → after.capTotal = s.map.capTotal →
    (∃ i, s.freed i = true ∧ (s.map.table i).used = false ∧ (after.table i).used = true) →
      ∀ key, key ≠ k → s.present key = true → intmapTryget P after key = intmapTryget P s.map key

theorem IntMapSession.frames_set {s : IntMapSession} {stored : Bool} (threaded : s.map.Threaded)
    (set : intmapSet P s.map k v = some (stored, after)) :
    s.Frames P (.set k v) ↔ s.LeftAlone P k after := by
  unfold IntMapSession.Frames
  rw [intmapFreshStep, intmapSessionStep, IntMap.guarded_eq threaded.cap_pos, set]
  cases here : s.present k with
  | true =>
    refine iff_of_true (fun _ none_ => nomatch none_) fun absent => ?_
    rw [here] at absent
    cases absent
  | false =>
    constructor
    · exact fun holds _ same reuses => holds _ rfl ⟨same, reuses⟩
    · rintro holds s' stepped ⟨same, reuses⟩
      obtain rfl := Option.some.inj stepped
      exact holds here same reuses

/-- A full table has no entry to fill. -/
theorem IntMapSession.apart_of_full {s : IntMapSession} (threaded : s.map.Threaded)
    (all : ∀ i < s.map.capTotal, (s.map.table i).used = true) : s.Apart P (.set k v) := by
  intro _ _ unused
  rw [all _ (intmapFills_lt threaded k)] at unused
  cases unused

/-- The entry that is filled is the only one that a set takes into use. -/
theorem IntMap.StoresAt.leftAlone_iff {s : IntMapSession} (threaded : s.map.Threaded)
    (stores : s.map.StoresAt chain (intmapFills P s.map k) k v after) :
    s.LeftAlone P k after ↔ s.Apart P (.set k v) := by
  constructor
  · intro holds absent freed unused key other here
    refine (stores.frame_iff threaded other).mp (holds absent stores.capTotal ?_ key other here)
    exact ⟨_, freed, unused, by rw [stores.entry]⟩
  · rintro apart absent - ⟨i, freed, unused, used⟩ key other here
    obtain rfl : i = intmapFills P s.map k := by
      by_contra different
      rw [stores.used i different, unused] at used
      cases used
    exact (stores.frame_iff threaded other).mpr (apart absent freed unused key other here)

/-- One set of an absent key. -/
theorem IntMapSession.frames_set_iff {s : IntMapSession} (threaded : s.map.Threaded) (k v : Nat) :
    s.Frames P (.set k v) ↔ s.Apart P (.set k v) := by
  obtain ⟨checked, stored, after, check, set, placed⟩ := intmapSet_checked (P := P) threaded k v
  rw [s.frames_set threaded set]
  cases check with
  | grown grows rebuilt =>
    have pos : 0 < s.map.capTotal := lt_of_lt_of_le threaded.cap_pos threaded.cap_le
    have twice : after.capTotal = s.map.capTotal * 2 := by
      rw [← rebuilt.capTotal]
      cases placed with
      | full _ => rfl
      | home stores => exact stores.capTotal
      | behind _ _ stores => exact stores.capTotal
    refine iff_of_true (fun _ same => by omega) (s.apart_of_full threaded (IntMap.all_used ?_))
    rw [← grows.2]
    exact threaded.counted
  | same stays =>
    cases placed with
    | full all =>
      refine iff_of_true ?_ (s.apart_of_full threaded all)
      rintro - - ⟨i, -, unused, used⟩
      rw [unused] at used
      cases used
    | home stores =>
      have fills : intmapFills P s.map k = intmapIndex P s.map k := by
        rw [intmapFills, if_neg (by rw [stores.free]; exact Bool.false_ne_true)]
      rw [← fills] at stores
      exact stores.leftAlone_iff threaded
    | @behind _ last taken _ stores =>
      rw [← show intmapFills P s.map k = _ from if_pos taken] at stores
      exact stores.leftAlone_iff threaded

theorem IntMapSession.Valid.frames_iff {s : IntMapSession} (valid : s.Valid) (op : IntMapOp) :
    s.Frames P op ↔ s.Apart P op := by
  rcases valid with threaded | ⟨buckets, unused, freed⟩
  · cases op with
    | set k v => exact s.frames_set_iff threaded k v
    | del k => exact s.frames_del_iff threaded k
  · cases op with
    | set k v =>
      refine iff_of_true ?_ fun _ taken => ?_
      · rintro s' stepped
        rw [intmapFreshStep, intmapSessionStep, IntMap.guarded, if_pos buckets] at stepped
        split at stepped <;> cases stepped
      · rw [freed] at taken
        cases taken
    | del k =>
      refine iff_of_true ?_ fun e finds => ?_
      · rintro s' stepped
        rw [intmapFreshStep, intmapSessionStep, IntMap.guarded, if_pos buckets] at stepped
        cases stepped
      · have used := finds.used
        rw [unused] at used
        cases used

end Frame

end Vaudou
