/-
**The allocator that tracks.**

`svma.c` keeps an entry for every allocation that was ever made, and the device remembers the entry with the
allocation. Freeing one asks the device for its entry and marks it as unused; an allocation that was freed may
be handed out again, under a new entry. `svma_deinit` reports what is still marked as used.

* `Svma.Holds` — the entries in use are the allocations that the device holds, in the order in which they were
  made.
* `Svma.Places` — the same for a client who knows where each of its allocations is.
* **`svma_reports_leaks`** — in every run, the report lists exactly the allocations that were not freed.
-/

import Mathlib.Data.List.Nodup
import Vaudou.Foundation.Run

namespace Vaudou

open Vaudou.Run

/-- `ArrayEntry`; `τ` is what an allocation is known by. -/
structure ArrayEntry (τ : Type) where
  tracking : τ
  used : Bool
deriving DecidableEq, Repr

/-- `SVMA`: the entries, and the allocations that the device holds, each with the entry that is its user
data. What was freed without being held is noted. -/
structure Svma (τ : Type) where
  track : Bool
  allocations : List (ArrayEntry τ)
  vma : List (Nat × Option Nat)
  faults : List Nat
deriving DecidableEq, Repr

section Operations

variable {τ : Type}

/-- `svma_init`. -/
def svmaInit (track : Bool) : Svma τ := ⟨track, [], [], []⟩

/-- What is common to `svma_create_buffer` and `svma_create_texture`; `none` for an allocation that the
device holds already, which it does not hand out. -/
def Svma.create (s : Svma τ) (allocation : Nat) (tracking : τ) : Option (Svma τ) :=
  if allocation ∈ s.vma.map Prod.fst then none
  else if s.track then
    some { s with
      allocations := s.allocations ++ [⟨tracking, true⟩]
      vma := s.vma ++ [(allocation, some s.allocations.length)] }
  else some { s with vma := s.vma ++ [(allocation, none)] }

/-- `svma_create_buffer`. -/
def Svma.createBuffer (s : Svma τ) (allocation : Nat) (tracking : τ) : Option (Svma τ) :=
  s.create allocation tracking

/-- `svma_create_texture`. -/
def Svma.createTexture (s : Svma τ) (allocation : Nat) (tracking : τ) : Option (Svma τ) :=
  s.create allocation tracking

/-- `free_allocation`. -/
def Svma.freeAllocation (s : Svma τ) (allocation : Nat) : Svma τ :=
  if s.track then
    match (s.vma.lookup allocation).join with
    | some entry =>
      { s with allocations := s.allocations.modify entry fun e => { e with used := false } }
    | none => s
  else s

/-- `svma_free_buffer` and `svma_free_texture`. -/
def Svma.free (s : Svma τ) (allocation : Nat) : Svma τ :=
  if allocation ∈ s.vma.map Prod.fst then
    { s.freeAllocation allocation with vma := s.vma.filter fun held => held.1 ≠ allocation }
  else { s with faults := s.faults ++ [allocation] }

/-- `svma_deinit`: what is reported, in the order of the entries. -/
def svmaDeinit (s : Svma τ) : List τ := (s.allocations.filter (·.used)).map (·.tracking)

/-- A call of the allocator. -/
inductive SvmaCall (τ : Type) where
  | create (allocation : Nat) (tracking : τ)
  | free (allocation : Nat)
deriving DecidableEq, Repr

/-- One call. -/
def svmaStep (s : Svma τ) : SvmaCall τ → Option (Svma τ)
  | .create allocation tracking => s.create allocation tracking
  | .free allocation => some (s.free allocation)

/-- What the calls leave, by what an allocator is for: the allocations that were made and not freed since,
with what they are known by, in the order in which they were made. -/
def unfreed (held : List (Nat × τ)) : List (SvmaCall τ) → List (Nat × τ)
  | [] => held
  | .create allocation tracking :: rest => unfreed (held ++ [(allocation, tracking)]) rest
  | .free allocation :: rest => unfreed (held.filter fun other => other.1 ≠ allocation) rest

/-- Every call of `free` names an allocation that is held. -/
def FreesHeld (s : Svma τ) : SvmaCall τ → Prop
  | .create _ _ => True
  | .free allocation => allocation ∈ s.vma.map Prod.fst

instance (s : Svma τ) : (call : SvmaCall τ) → Decidable (FreesHeld s call)
  | .create _ _ => inferInstanceAs (Decidable True)
  | .free allocation => inferInstanceAs (Decidable (allocation ∈ s.vma.map Prod.fst))

end Operations

/-! ### The entries in use -/

section Entries

variable {τ : Type}

/-- The entries in use, with their places from `n` on. -/
def usedFrom (n : Nat) : List (ArrayEntry τ) → List (Nat × τ)
  | [] => []
  | e :: rest => if e.used then (n, e.tracking) :: usedFrom (n + 1) rest else usedFrom (n + 1) rest

theorem usedFrom_append (n : Nat) (entries more : List (ArrayEntry τ)) :
    usedFrom n (entries ++ more) = usedFrom n entries ++ usedFrom (n + entries.length) more := by
  induction entries generalizing n with
  | nil => rfl
  | cons e rest ih =>
    rw [List.cons_append, usedFrom, usedFrom, ih, List.length_cons, Nat.add_right_comm n 1, Nat.add_assoc n]
    split <;> rfl

theorem usedFrom_places {n i : Nat} {entries : List (ArrayEntry τ)}
    (member : i ∈ (usedFrom n entries).map Prod.fst) : n ≤ i ∧ i < n + entries.length := by
  induction entries generalizing n with
  | nil => cases member
  | cons e rest ih =>
    rw [usedFrom] at member
    rw [List.length_cons]
    split at member
    · rcases List.mem_cons.mp member with rfl | later
      · exact ⟨Nat.le_refl _, by omega⟩
      · have := ih later
        omega
    · have := ih member
      omega

theorem usedFrom_nodup (n : Nat) (entries : List (ArrayEntry τ)) :
    ((usedFrom n entries).map Prod.fst).Nodup := by
  induction entries generalizing n with
  | nil => exact List.nodup_nil
  | cons e rest ih =>
    rw [usedFrom]
    split
    · refine List.nodup_cons.mpr ⟨fun again => ?_, ih (n + 1)⟩
      have := (usedFrom_places again).1
      omega
    · exact ih (n + 1)

theorem usedFrom_tracking (n : Nat) (entries : List (ArrayEntry τ)) :
    (usedFrom n entries).map Prod.snd = (entries.filter (·.used)).map (·.tracking) := by
  induction entries generalizing n with
  | nil => rfl
  | cons e rest ih =>
    rw [usedFrom, List.filter_cons]
    split
    · rw [List.map_cons, List.map_cons, ih]
    · exact ih (n + 1)

/-- **Marking an entry as unused** takes it out of those in use. -/
theorem usedFrom_modify (n i : Nat) (entries : List (ArrayEntry τ)) :
    usedFrom n (entries.modify i fun e => { e with used := false }) =
      (usedFrom n entries).filter fun row => row.1 ≠ n + i := by
  induction entries generalizing n i with
  | nil =>
    rw [List.modify_nil]
    rfl
  | cons e rest ih =>
    cases i with
    | zero =>
      have others : (usedFrom (n + 1) rest).filter (fun row => row.1 ≠ n + 0) = usedFrom (n + 1) rest := by
        refine List.filter_eq_self.mpr fun row member => ?_
        have := (usedFrom_places (List.mem_map_of_mem member)).1
        simp only [ne_eq, decide_not, Bool.not_eq_true', decide_eq_false_iff_not]
        omega
      rw [List.modify_zero_cons, usedFrom, usedFrom, if_neg Bool.false_ne_true]
      split
      · rw [List.filter_cons_of_neg (by simp), others]
      · exact others.symm
    | succ i =>
      rw [List.modify_succ_cons, usedFrom, usedFrom, ih, Nat.add_right_comm, Nat.add_assoc]
      split
      · rw [List.filter_cons_of_pos (by simp)]
      · rfl

end Entries

/-! ### What is held -/

section Holding

variable {τ : Type} {s s' : Svma τ} {held : List (Nat × τ)} {allocation : Nat} {tracking : τ}

/-- An allocation, the place of its entry, and what it is known by. -/
abbrev Row (τ : Type) : Type := Nat × Nat × τ

/-- **What the allocator holds.** The device holds these allocations, and the entries in use are theirs. -/
structure Svma.Holds (s : Svma τ) (held : List (Nat × τ)) : Prop where
  device : s.vma.map Prod.fst = held.map Prod.fst
  nodup : (held.map Prod.fst).Nodup
  entries : s.track = true → ∃ rows : List (Row τ), s.vma = rows.map (fun row => (row.1, some row.2.1)) ∧
    held = rows.map (fun row => (row.1, row.2.2)) ∧ usedFrom 0 s.allocations = rows.map Prod.snd
  untracked : s.track = false → s.allocations = []

theorem svmaInit_holds (track : Bool) : (svmaInit track : Svma τ).Holds [] :=
  ⟨rfl, List.nodup_nil, fun _ => ⟨[], rfl, rfl, rfl⟩, fun _ => rfl⟩

/-- **The report.** -/
theorem Svma.Holds.report (holds : s.Holds held) :
    svmaDeinit s = if s.track then held.map Prod.snd else [] := by
  unfold svmaDeinit
  rw [← usedFrom_tracking 0]
  split
  · next track =>
    obtain ⟨rows, -, rfl, used⟩ := holds.entries track
    rw [used, List.map_map, List.map_map]
    rfl
  · next track =>
    rw [holds.untracked (Bool.eq_false_iff.mpr track)]
    rfl

/-- **A new allocation** is held behind the others. -/
theorem Svma.Holds.create (holds : s.Holds held) (created : s.create allocation tracking = some s') :
    s'.Holds (held ++ [(allocation, tracking)]) ∧ s'.faults = s.faults ∧ s'.track = s.track ∧
      allocation ∉ held.map Prod.fst := by
  unfold Svma.create at created
  split at created
  · cases created
  next fresh =>
  rw [holds.device] at fresh
  have nodup : ((held ++ [(allocation, tracking)]).map Prod.fst).Nodup := by
    rw [List.map_append]
    exact holds.nodup.append (List.nodup_singleton _) (List.disjoint_singleton.mpr fresh)
  split at created
  · next track =>
    obtain ⟨rows, vma, all, used⟩ := holds.entries track
    cases created
    refine ⟨⟨?_, nodup, fun _ => ?_, fun off => absurd (track.symm.trans off) nofun⟩, rfl, rfl, fresh⟩
    · rw [List.map_append, List.map_append, holds.device]
      rfl
    · refine ⟨rows ++ [(allocation, s.allocations.length, tracking)], ?_, ?_, ?_⟩
      · rw [List.map_append, ← vma]
        rfl
      · rw [List.map_append, ← all]
        rfl
      · rw [usedFrom_append, used, List.map_append, Nat.zero_add]
        rfl
  · next track =>
    cases created
    refine ⟨⟨?_, nodup, fun on => absurd on track, holds.untracked⟩, rfl, rfl, fresh⟩
    rw [List.map_append, List.map_append, holds.device]
    rfl

/-- In a list without repetitions, the row of an allocation is the row of its entry. -/
theorem rows_apart {rows : List (Row τ)} (allocations : (rows.map Prod.fst).Nodup)
    (entries : ((rows.map Prod.snd).map Prod.fst).Nodup) {row : Row τ} (member : row ∈ rows) :
    rows.filter (fun other => other.1 ≠ row.1) = rows.filter fun other => other.2.1 ≠ row.2.1 := by
  refine List.filter_congr fun other among => decide_eq_decide.mpr (not_congr ⟨fun same => ?_, fun same => ?_⟩)
  · rw [List.inj_on_of_nodup_map allocations among member same]
  · rw [List.map_map] at entries
    rw [List.inj_on_of_nodup_map entries among member same]

theorem lookup_rows {rows : List (Row τ)} (allocations : (rows.map Prod.fst).Nodup) {row : Row τ}
    (member : row ∈ rows) :
    ((rows.map fun row => (row.1, some row.2.1)).lookup row.1).join = some row.2.1 := by
  induction rows with
  | nil => cases member
  | cons first rest ih =>
    obtain ⟨apart, later⟩ := List.nodup_cons.mp allocations
    rw [List.map_cons, List.lookup_cons]
    rcases List.mem_cons.mp member with rfl | among
    · rw [beq_self_eq_true]
      rfl
    · have other : (row.1 == first.1) = false := by
        refine beq_false_of_ne fun same => apart ?_
        rw [← same]
        exact List.mem_map_of_mem among
      rw [other]
      exact ih later among

/-- **Freeing what is held** leaves the others. -/
theorem Svma.Holds.free (holds : s.Holds held) (member : allocation ∈ held.map Prod.fst) :
    (s.free allocation).Holds (held.filter fun other => other.1 ≠ allocation) ∧
      (s.free allocation).faults = s.faults ∧ (s.free allocation).track = s.track := by
  have inside : allocation ∈ s.vma.map Prod.fst := by rwa [holds.device]
  have device : (s.vma.filter fun other => other.1 ≠ allocation).map Prod.fst =
      (held.filter fun other => other.1 ≠ allocation).map Prod.fst := by
    have filters : ∀ {β : Type} (rows : List (Nat × β)), (rows.filter fun other => other.1 ≠ allocation).map
        Prod.fst = (rows.map Prod.fst).filter fun other => other ≠ allocation := fun rows => by
      rw [List.filter_map]
      rfl
    rw [filters, filters, holds.device]
  have nodup : ((held.filter fun other => other.1 ≠ allocation).map Prod.fst).Nodup :=
    holds.nodup.sublist (List.filter_sublist.map _)
  unfold Svma.free
  rw [if_pos inside]
  cases track : s.track with
  | false =>
    unfold Svma.freeAllocation
    rw [track, if_neg Bool.false_ne_true]
    exact ⟨⟨device, nodup, fun on => absurd (track.symm.trans on) nofun, holds.untracked⟩, rfl, track⟩
  | true =>
    obtain ⟨rows, vma, all, used⟩ := holds.entries track
    have allocations : (rows.map Prod.fst).Nodup := by
      have nodup := holds.nodup
      rwa [all, List.map_map] at nodup
    have entries : ((rows.map Prod.snd).map Prod.fst).Nodup := used ▸ usedFrom_nodup 0 s.allocations
    rw [all, List.map_map] at member
    obtain ⟨row, among, rfl⟩ := List.mem_map.mp member
    have found : (s.vma.lookup row.1).join = some row.2.1 := by
      rw [vma]
      exact lookup_rows allocations among
    unfold Svma.freeAllocation
    simp only [Function.comp_apply] at *
    rw [track, if_pos rfl, found]
    refine ⟨⟨device, nodup, fun _ => ?_, fun off => absurd off nofun⟩, rfl, rfl⟩
    refine ⟨rows.filter fun other => other.1 ≠ row.1, ?_, ?_, ?_⟩
    · rw [vma, List.filter_map]
      rfl
    · rw [all, List.filter_map]
      rfl
    · rw [usedFrom_modify, used, rows_apart allocations entries among, List.filter_map, Nat.zero_add]
      rfl

end Holding

/-! ### Runs of calls -/

section Runs

variable {τ : Type} {s s' start : Svma τ} {held : List (Nat × τ)} {calls : List (SvmaCall τ)}

/-- **Calls on what is held.** The induction is over the calls; `held` is what the first of them finds. -/
theorem Svma.Holds.run : ∀ {calls : List (SvmaCall τ)} {s : Svma τ} {held : List (Nat × τ)}, s.Holds held →
    Along svmaStep FreesHeld s calls → run svmaStep s calls = some s' →
    s'.Holds (unfreed held calls) ∧ s'.track = s.track
  | [], _, _, holds, _, ran => by
    cases ran
    exact ⟨holds, rfl⟩
  | .create allocation tracking :: rest, s, held, holds, along, ran => by
    obtain ⟨next, stepped, later⟩ := run_cons_some.mp ran
    obtain ⟨created, -, track, -⟩ := holds.create stepped
    obtain ⟨ended, tracks⟩ := created.run (along.2 next stepped) later
    exact ⟨ended, tracks.trans track⟩
  | .free allocation :: rest, s, held, holds, along, ran => by
    obtain ⟨next, stepped, later⟩ := run_cons_some.mp ran
    have member : allocation ∈ held.map Prod.fst := by
      rw [← holds.device]
      exact along.1
    obtain ⟨freed, -, track⟩ := holds.free member
    cases stepped
    obtain ⟨ended, tracks⟩ := freed.run (along.2 _ rfl) later
    exact ⟨ended, tracks.trans track⟩

/-- **The leak report is exact.** In every run in which what is freed is held, however often the device hands
out an allocation again, the device holds in the end exactly what was made and not freed since; a tracking
allocator reports exactly that, in the order in which it was made, and any other reports nothing. -/
theorem svma_reports_leaks {track : Bool} (ran : run svmaStep (svmaInit track) calls = some s)
    (along : Along svmaStep FreesHeld (svmaInit track) calls) :
    s.vma.map Prod.fst = (unfreed [] calls).map Prod.fst ∧
      svmaDeinit s = if track then (unfreed [] calls).map Prod.snd else [] := by
  obtain ⟨holds, tracks⟩ := (svmaInit_holds track).run along ran
  refine ⟨holds.device, ?_⟩
  rw [holds.report, tracks]
  rfl

/-- An allocation is freed and handed out again. -/
theorem svma_reports_leaks_again : ∃ s : Svma Nat,
    run svmaStep (svmaInit true) [.create 7 100, .create 8 101, .free 7, .create 7 102] = some s ∧
      svmaDeinit s = [101, 102] :=
  ⟨_, rfl, (@svma_reports_leaks _ _ [.create 7 100, .create 8 101, .free 7, .create 7 102] true rfl
    (by decide)).2⟩

end Runs

/-! ### Places -/

section Placing

variable {τ : Type} [DecidableEq τ] {s s' : Svma τ} {place : τ → Option Nat} {lost : τ → Nat}
  {allocation : Nat} {tracking : τ}

/-- **A client's allocations.** What is held under a label is the allocation that the client has in its place,
and those that it has lost; nothing was freed that was not held. -/
structure Svma.Places (s : Svma τ) (place : τ → Option Nat) (lost : τ → Nat) : Prop where
  holds : ∃ held, s.Holds held ∧ (∀ label, (held.map Prod.snd).count label =
    (place label).toList.length + lost label) ∧ ∀ label a, place label = some a → (a, label) ∈ held
  faults : s.faults = []
  track : s.track = true

theorem svmaInit_places : (svmaInit true : Svma τ).Places (fun _ => none) fun _ => 0 where
  holds := ⟨[], svmaInit_holds true, fun _ => rfl, fun _ _ placed => nomatch placed⟩
  faults := rfl
  track := rfl

theorem Svma.Places.congr {place' : τ → Option Nat} {lost' : τ → Nat} (places : s.Places place lost)
    (samePlace : ∀ label, place' label = place label) (sameLost : ∀ label, lost' label = lost label) :
    s.Places place' lost' := by
  rwa [funext samePlace, funext sameLost]

/-- **The report counts** what is in place and what is lost. -/
theorem Svma.Places.report (places : s.Places place lost) (label : τ) :
    (svmaDeinit s).count label = (place label).toList.length + lost label := by
  obtain ⟨held, holds, counts, -⟩ := places.holds
  rw [holds.report, if_pos places.track, counts]

/-- The device holds what is in place. -/
theorem Svma.Places.held (places : s.Places place lost) (placed : place tracking = some allocation) :
    allocation ∈ s.vma.map Prod.fst := by
  obtain ⟨held, holds, -, here⟩ := places.holds
  rw [holds.device]
  exact List.mem_map_of_mem (here tracking allocation placed)

/-- One more is held under the label of what is created. -/
theorem count_created (held : List (Nat × τ)) (allocation : Nat) (tracking label : τ) :
    ((held ++ [(allocation, tracking)]).map Prod.snd).count label =
      (held.map Prod.snd).count label + if label = tracking then 1 else 0 := by
  rw [List.map_append, List.count_append, List.map_singleton, List.count_singleton]
  simp only [beq_iff_eq, @eq_comm _ tracking label]

/-- **A client puts an allocation into an empty place.** -/
theorem Svma.Places.create (places : s.Places place lost)
    (created : s.create allocation tracking = some s') (empty : place tracking = none) :
    s'.Places (Function.update place tracking (some allocation)) lost := by
  obtain ⟨held, holds, counts, here⟩ := places.holds
  obtain ⟨after, faults, track, -⟩ := holds.create created
  refine ⟨⟨_, after, fun label => ?_, fun label a placed => ?_⟩, faults.trans places.faults,
    track.trans places.track⟩
  · rw [count_created, counts]
    by_cases same : label = tracking
    · subst same
      rw [if_pos rfl, Function.update_self, empty]
      exact Nat.add_right_comm 0 _ 1
    · rw [if_neg same, Function.update_of_ne same]
      rfl
  · by_cases same : label = tracking
    · subst same
      rw [Function.update_self] at placed
      cases placed
      exact List.mem_append_right _ (List.mem_singleton_self _)
    · rw [Function.update_of_ne same] at placed
      exact List.mem_append_left _ (here label a placed)

/-- **A client loses what it creates.** -/
theorem Svma.Places.lose (places : s.Places place lost)
    (created : s.create allocation tracking = some s') :
    s'.Places place fun label => lost label + if label = tracking then 1 else 0 := by
  obtain ⟨held, holds, counts, here⟩ := places.holds
  obtain ⟨after, faults, track, -⟩ := holds.create created
  refine ⟨⟨_, after, fun label => ?_, fun label a placed => ?_⟩, faults.trans places.faults,
    track.trans places.track⟩
  · rw [count_created, counts, Nat.add_assoc]
  · exact List.mem_append_left _ (here label a placed)

/-- Without repetitions, filtering one pair out takes one from its label. -/
theorem count_filtered {held : List (Nat × τ)} (nodup : (held.map Prod.fst).Nodup)
    (member : (allocation, tracking) ∈ held) (label : τ) :
    ((held.filter fun other => other.1 ≠ allocation).map Prod.snd).count label +
      (if label = tracking then 1 else 0) = (held.map Prod.snd).count label := by
  induction held with
  | nil => cases member
  | cons first rest ih =>
    obtain ⟨apart, later⟩ := List.nodup_cons.mp nodup
    rcases List.mem_cons.mp member with rfl | among
    · have others : rest.filter (fun other => other.1 ≠ allocation) = rest := by
        refine List.filter_eq_self.mpr fun other behind => ?_
        have apart : other.1 ≠ allocation := fun same =>
          apart (List.mem_map.mpr ⟨other, behind, same⟩)
        simpa using apart
      rw [List.filter_cons_of_neg (by simp), others, List.map_cons, List.count_cons]
      simp only [beq_iff_eq, @eq_comm _ tracking label]
    · have other : first.1 ≠ allocation := fun same =>
        apart (List.mem_map.mpr ⟨_, among, same.symm⟩)
      rw [List.filter_cons_of_pos (by simpa using other), List.map_cons, List.map_cons, List.count_cons,
        List.count_cons, ← ih later among]
      omega

/-- **A client frees what is in a place.** -/
theorem Svma.Places.free (places : s.Places place lost) (placed : place tracking = some allocation) :
    (s.free allocation).Places (Function.update place tracking none) lost := by
  obtain ⟨held, holds, counts, here⟩ := places.holds
  have member := here tracking allocation placed
  obtain ⟨after, faults, track⟩ := holds.free (List.mem_map_of_mem member)
  refine ⟨⟨_, after, fun label => ?_, fun label a other => ?_⟩, faults.trans places.faults,
    track.trans places.track⟩
  · have count := count_filtered holds.nodup member label
    rw [counts] at count
    by_cases same : label = tracking
    · subst same
      rw [placed, if_pos rfl] at count
      rw [Function.update_self]
      simp only [Option.toList_some, List.length_singleton, Option.toList_none, List.length_nil] at *
      omega
    · rw [if_neg same] at count
      rw [Function.update_of_ne same, ← count]
      rfl
  · by_cases same : label = tracking
    · subst same
      rw [Function.update_self] at other
      cases other
    · rw [Function.update_of_ne same] at other
      have apart : a ≠ allocation := by
        rintro rfl
        exact same (congrArg Prod.snd (List.inj_on_of_nodup_map holds.nodup (here label a other) member rfl))
      exact List.mem_filter.mpr ⟨here label a other, by simpa using apart⟩

/-- **A client frees what is in several places.** The induction is over the places. -/
theorem Svma.Places.freeAll : ∀ {pairs : List (τ × Nat)} {s : Svma τ} {place : τ → Option Nat},
    s.Places place lost → (pairs.map Prod.fst).Nodup → (∀ pair ∈ pairs, place pair.1 = some pair.2) →
    ((pairs.map Prod.snd).foldl Svma.free s).Places
      (fun label => if label ∈ pairs.map Prod.fst then none else place label) lost
  | [], s, place, places, _, _ => by
    simpa only [List.map_nil, List.foldl_nil, List.not_mem_nil, if_false] using places
  | pair :: rest, s, place, places, nodup, placed => by
    obtain ⟨apart, later⟩ := List.nodup_cons.mp nodup
    have freed := (places.free (placed pair List.mem_cons_self)).freeAll later fun other behind => by
      have different : other.1 ≠ pair.1 := fun same => apart (same ▸ List.mem_map_of_mem behind)
      rw [Function.update_of_ne different]
      exact placed other (List.mem_cons_of_mem _ behind)
    rw [List.map_cons, List.map_cons, List.foldl_cons]
    have same : (fun label => if label ∈ rest.map Prod.fst then none
        else Function.update place pair.1 none label) =
        fun label => if label ∈ pair.1 :: rest.map Prod.fst then none else place label := by
      funext label
      by_cases here : label = pair.1
      · subst here
        rw [Function.update_self, ite_self, if_pos List.mem_cons_self]
      · simp only [Function.update_of_ne here, List.mem_cons, here, false_or]
    rwa [same] at freed

/-- **A client loses all that it creates** under one label. -/
theorem Svma.Places.loseAll : ∀ {created : List Nat} {s : Svma τ} {lost : τ → Nat},
    s.Places place lost → created.foldlM (fun s allocation => s.create allocation tracking) s = some s' →
    s'.Places place fun label => lost label + if label = tracking then created.length else 0
  | [], s, lost, places, made => by
    cases made
    simpa only [List.length_nil, ite_self, Nat.add_zero] using places
  | allocation :: rest, s, lost, places, made => by
    rw [List.foldlM_cons] at made
    obtain ⟨next, first, later⟩ := Option.bind_eq_some_iff.mp made
    have ended := (places.lose first).loseAll later
    have same : (fun label => lost label + (if label = tracking then 1 else 0) +
        if label = tracking then rest.length else 0) =
        fun label => lost label + if label = tracking then (allocation :: rest).length else 0 := by
      funext label
      split
      · rw [List.length_cons]
        omega
      · rfl
    rwa [same] at ended

end Placing

end Vaudou
