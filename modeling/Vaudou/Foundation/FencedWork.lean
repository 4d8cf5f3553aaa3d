/-
**Work behind fences.**

A host submits jobs to a device, which completes them in any order and at any time: between two calls of
the host any number of jobs may complete. A job signals its fence when it completes, and the host may wait
for the fence. What a pending job uses must be left alone by the host, and a fence must not be reset or
submitted while a job is still to signal it (`Call.Valid`).

The host does not see which jobs are pending. What it can know of a fence is its `Phase`: a view of the
phases permits a call (`View.Permits`) if every resource it touches is guarded by fences none of which is
in flight. This is enough, whatever the device does in between:

* `Tracks.permits_valid` — a call that is permitted is valid.
* `Tracks.call` and `Tracks.complete` — the view stays true behind the call, and while jobs complete.
* `Tracks.call_isSome` — no call that is permitted waits for a job that was never submitted.
-/

import Mathlib.Data.List.Nodup
import Mathlib.Logic.Function.Basic

namespace Vaudou.Fenced

variable {F R L : Type}

/-- A job: the fence it signals, the resources it uses, the semaphores it waits for (which it uses too),
and what it stands for. -/
structure Job (F R L : Type) where
  fence : F
  uses : List R
  waits : List R
  label : L
deriving DecidableEq, Repr

/-- The call of a host. -/
inductive Call (F R L : Type) where
  /-- A fence is created signaled. -/
  | createFence (f : F)
  | destroyFence (f : F)
  /-- The host waits until the fence is signaled. -/
  | wait (f : F)
  | reset (f : F)
  /-- A semaphore is handed out to be signaled. -/
  | acquire (r : R)
  /-- The host touches a resource: it writes, resets or destroys it. -/
  | use (r : R)
  | submit (job : Job F R L)
  /-- The host waits until all jobs are complete. -/
  | waitIdle
deriving DecidableEq, Repr

/-- The device: for each fence that exists whether it is signaled, the semaphores that are or will be
signaled, and the jobs that are not complete, oldest first. -/
structure Device (F R L : Type) where
  fences : F → Option Bool
  armed : R → Bool
  pending : List (Job F R L)

/-- A device with the given fences, all signaled. -/
def Device.fresh [DecidableEq F] (fences : List F) : Device F R L :=
  ⟨fun f => if f ∈ fences then some true else none, fun _ => false, []⟩

section Calls

variable [DecidableEq F] [DecidableEq R]

/-- **A call**; `none` while the host waits. Nothing is checked. -/
def Device.call (d : Device F R L) : Call F R L → Option (Device F R L)
  | .createFence f => some { d with fences := Function.update d.fences f (some true) }
  | .destroyFence f => some { d with fences := Function.update d.fences f none }
  | .wait f => if d.fences f = some true then some d else none
  | .reset f => some { d with fences := Function.update d.fences f (some false) }
  | .acquire r => some { d with armed := Function.update d.armed r true }
  | .use _ => some d
  | .submit job => some { d with
      armed := fun r => if r ∈ job.waits then false else d.armed r
      pending := d.pending ++ [job] }
  | .waitIdle => if d.pending.isEmpty then some d else none

/-- **A job completes**, the one at place `k` of those pending. -/
def Device.complete (d : Device F R L) (k : Nat) : Option (Device F R L) :=
  d.pending[k]?.map fun job => { d with
    fences := Function.update d.fences job.fence (some true)
    pending := d.pending.eraseIdx k }

section Step

variable {d d' : Device F R L} {c : Call F R L} {f : F}

/-- A pending job was pending before, or is the one submitted. -/
theorem Device.call_pending (called : d.call c = some d') :
    ∀ job ∈ d'.pending, job ∈ d.pending ∨ c = .submit job := by
  intro job member
  cases c with
  | wait f | waitIdle =>
    obtain ⟨-, ⟨⟩⟩ := Option.ite_none_right_eq_some.mp called
    exact Or.inl member
  | submit new =>
    cases called
    refine (List.mem_append.mp member).imp_right fun last => ?_
    rw [List.mem_singleton.mp last]
  | createFence f | destroyFence f | reset f | acquire r | use r =>
    cases called
    exact Or.inl member

/-- The host has waited for the fence. -/
theorem Device.waited (called : d.call (.wait f) = some d') : d.fences f = some true :=
  (Option.ite_none_right_eq_some.mp called).1

/-- The host has waited for all jobs. -/
theorem Device.waitedIdle (called : d.call .waitIdle = some d') : d.pending = [] :=
  List.isEmpty_iff.mp (Option.ite_none_right_eq_some.mp called).1

end Step

end Calls

/-- No pending job is to signal the fence. -/
def Device.Quiet (d : Device F R L) (f : F) : Prop := ∀ job ∈ d.pending, job.fence ≠ f

/-- **The calls that the device allows.** -/
def Call.Valid (d : Device F R L) : Call F R L → Prop
  | .createFence f => d.fences f = none
  | .destroyFence f => d.fences f ≠ none ∧ d.Quiet f
  -- the fence is signaled, or will be
  | .wait f => d.fences f = some true ∨ (d.fences f = some false ∧ ∃ job ∈ d.pending, job.fence = f)
  | .reset f => d.fences f ≠ none ∧ d.Quiet f
  | .acquire r => d.armed r = false ∧ ∀ job ∈ d.pending, r ∉ job.waits
  | .use r => ∀ job ∈ d.pending, r ∉ job.uses
  | .submit job => d.fences job.fence = some false ∧ d.Quiet job.fence ∧
      ∀ r ∈ job.waits, d.armed r = true
  | .waitIdle => True

/-! ### What the host knows -/

/-- What the host knows of a fence: it does not exist; it is signaled or a job is pending that will signal
it; it is signaled and no such job is pending; it is unsignaled and no such job is pending. -/
inductive Phase where
  | absent
  | inFlight
  | idle
  | unsignaled
deriving DecidableEq, Repr

/-- What the host knows of the device. -/
structure View (F R : Type) where
  phase : F → Phase
  armed : R → Bool

section Views

variable (guards : R → F → Prop)

/-- **The host may make the call**: of the fences whose jobs use the resource, none is in flight. -/
def View.Permits (v : View F R) : Call F R L → Prop
  | .createFence f => v.phase f = .absent
  | .destroyFence f => v.phase f = .idle ∨ v.phase f = .unsignaled
  | .wait f => v.phase f = .inFlight ∨ v.phase f = .idle
  | .reset f => v.phase f = .idle ∨ v.phase f = .unsignaled
  | .acquire r => v.armed r = false ∧ ∀ f, guards r f → v.phase f ≠ .inFlight
  | .use r => ∀ f, guards r f → v.phase f ≠ .inFlight
  | .submit job => v.phase job.fence = .unsignaled ∧ (∀ r ∈ job.uses, guards r job.fence) ∧
      ∀ r ∈ job.waits, r ∈ job.uses ∧ v.armed r = true
  | .waitIdle => True

/-- Behind a wait for all jobs. -/
def Phase.settled : Phase → Phase
  | .inFlight => .idle
  | other => other

/-- **What the host knows behind the call.** -/
def View.after [DecidableEq F] [DecidableEq R] (v : View F R) : Call F R L → View F R
  | .createFence f => { v with phase := Function.update v.phase f .idle }
  | .destroyFence f => { v with phase := Function.update v.phase f .absent }
  | .wait f => { v with phase := Function.update v.phase f .idle }
  | .reset f => { v with phase := Function.update v.phase f .unsignaled }
  | .acquire r => { v with armed := Function.update v.armed r true }
  | .use _ => v
  | .submit job =>
    { phase := Function.update v.phase job.fence .inFlight
      armed := fun r => if r ∈ job.waits then false else v.armed r }
  | .waitIdle => { v with phase := fun f => (v.phase f).settled }

/-- **Every call of a program is permitted**, and what the host knows at its end. -/
def View.Follows [DecidableEq F] [DecidableEq R] (Q : View F R → Prop) :
    View F R → List (Call F R L) → Prop
  | v, [] => Q v
  | v, c :: rest => v.Permits guards c ∧ View.Follows Q (v.after c) rest

/-- A phase is true of its fence. -/
def Phase.True (d : Device F R L) (f : F) : Phase → Prop
  | .absent => d.fences f = none ∧ d.Quiet f
  | .inFlight => (d.fences f = some true ∧ d.Quiet f) ∨
      (d.fences f = some false ∧ ∃ job ∈ d.pending, job.fence = f)
  | .idle => d.fences f = some true ∧ d.Quiet f
  | .unsignaled => d.fences f = some false ∧ d.Quiet f

/-- **The view is true of the device**, every pending job uses what its fence guards, and no two of them
signal one fence. -/
structure Tracks (v : View F R) (d : Device F R L) : Prop where
  phases : ∀ f, (v.phase f).True d f
  armed : v.armed = d.armed
  guarded : ∀ job ∈ d.pending, ∀ r ∈ job.uses, guards r job.fence
  waited : ∀ job ∈ d.pending, ∀ r ∈ job.waits, r ∈ job.uses
  apart : (d.pending.map Job.fence).Nodup

end Views

section Follows

variable [DecidableEq F] [DecidableEq R] {guards : R → F → Prop} {P Q : View F R → Prop}
  {v : View F R} {first second : List (Call F R L)}

theorem follows_append : View.Follows guards Q v (first ++ second) ↔
    View.Follows guards (fun u => View.Follows guards Q u second) v first := by
  induction first generalizing v with
  | nil => exact Iff.rfl
  | cons c rest ih => exact and_congr_right fun _ => ih

theorem View.Follows.imp (implies : ∀ u, P u → Q u) :
    ∀ {v : View F R} {calls : List (Call F R L)}, View.Follows guards P v calls →
      View.Follows guards Q v calls
  | v, [], holds => implies v holds
  | _, _ :: _, ⟨permitted, later⟩ => ⟨permitted, View.Follows.imp implies later⟩

/-- **Touching resources** changes nothing of what the host knows. -/
theorem follows_uses {resources : List R}
    (free : ∀ r ∈ resources, ∀ f, guards r f → v.phase f ≠ .inFlight) (ends : Q v) :
    View.Follows guards Q v (resources.map (Call.use (L := L))) := by
  induction resources with
  | nil => exact ends
  | cons r rest ih =>
    exact ⟨free r List.mem_cons_self, ih fun other member => free other (List.mem_cons_of_mem _ member)⟩

/-- **Fences are created**: behind it they are idle. -/
theorem follows_creates {fences : List F} (apart : fences.Nodup)
    (absent : ∀ f ∈ fences, v.phase f = .absent)
    (ends : Q { v with phase := fun f => if f ∈ fences then .idle else v.phase f }) :
    View.Follows guards Q v (fences.map (Call.createFence (R := R) (L := L))) := by
  induction fences generalizing v with
  | nil => exact ends
  | cons f rest ih =>
    obtain ⟨here, apart⟩ := List.nodup_cons.mp apart
    refine ⟨absent f List.mem_cons_self, ih apart (fun other member => ?_) ?_⟩
    · show Function.update v.phase f .idle other = .absent
      rw [Function.update_of_ne (ne_of_mem_of_not_mem member here)]
      exact absent other (List.mem_cons_of_mem _ member)
    · refine Eq.mp (congrArg (fun phase => Q ⟨phase, v.armed⟩) (funext fun other => ?_)) ends
      by_cases same : other = f
      · subst same
        simp [here, View.after]
      · simp [same, View.after]

/-- **Fences are destroyed**, each with the resources that belong to it, while no fence is in flight. -/
theorem follows_teardown {parts : List (F × List R)} (apart : (parts.map Prod.fst).Nodup)
    (landed : ∀ f, v.phase f ≠ .inFlight)
    (present : ∀ f ∈ parts.map Prod.fst, v.phase f = .idle ∨ v.phase f = .unsignaled)
    (ends : Q { v with phase := fun f => if f ∈ parts.map Prod.fst then .absent else v.phase f }) :
    View.Follows guards Q v
      (parts.flatMap fun part => .destroyFence part.1 :: part.2.map (Call.use (L := L))) := by
  induction parts generalizing v with
  | nil => exact ends
  | cons part rest ih =>
    rw [List.map_cons] at apart present
    obtain ⟨here, apart⟩ := List.nodup_cons.mp apart
    have landed' : ∀ f, Function.update v.phase part.1 .absent f ≠ .inFlight := by
      intro f
      by_cases same : f = part.1
      · subst same
        rw [Function.update_self]
        decide
      · rw [Function.update_of_ne same]
        exact landed f
    refine ⟨present part.1 List.mem_cons_self, follows_append.mpr (follows_uses ?_ ?_)⟩
    · exact fun r _ f _ => landed' f
    refine ih apart landed' (fun other member => ?_) ?_
    · have kept : Function.update v.phase part.1 .absent other = v.phase other :=
        Function.update_of_ne (ne_of_mem_of_not_mem member here) _ _
      simp only [View.after, kept]
      exact present other (List.mem_cons_of_mem _ member)
    · refine Eq.mp (congrArg (fun phase => Q ⟨phase, v.armed⟩) (funext fun other => ?_)) ends
      rw [List.map_cons]
      by_cases same : other = part.1
      · subst same
        simp only [List.mem_cons_self, here, if_true, if_false, View.after, Function.update_self]
      · simp only [List.mem_cons, same, false_or, View.after, Function.update_of_ne same]

end Follows

/-! ### The view stays true -/

section Phases

variable {guards : R → F → Prop} {v : View F R} {d d' : Device F R L} {c : Call F R L} {f : F}

/-- A phase that is not in flight has no pending job. -/
theorem Phase.True.quiet {phase : Phase} (holds : phase.True d f) (landed : phase ≠ .inFlight) :
    d.Quiet f := by
  cases phase with
  | inFlight => exact absurd rfl landed
  | absent | idle | unsignaled => exact holds.2

/-- A fence with a phase that is signaled or unsignaled exists. -/
theorem Phase.True.exists {phase : Phase} (holds : phase.True d f)
    (known : phase = .idle ∨ phase = .unsignaled) : d.fences f ≠ none := by
  rcases known with rfl | rfl <;> simp [holds.1]

/-- A phase depends on the fence and on its pending jobs. -/
theorem Phase.True.congr {phase : Phase} (holds : phase.True d f) (fence : d'.fences f = d.fences f)
    (same : (∃ job ∈ d'.pending, job.fence = f) ↔ ∃ job ∈ d.pending, job.fence = f) :
    phase.True d' f := by
  have quiet : d.Quiet f → d'.Quiet f := fun still job member here => by
    obtain ⟨other, pending, there⟩ := same.mp ⟨job, member, here⟩
    exact still other pending there
  cases phase with
  | inFlight =>
    refine holds.imp ?_ ?_
    · exact fun signaled => ⟨fence.trans signaled.1, quiet signaled.2⟩
    · exact fun waiting => ⟨fence.trans waiting.1, same.mpr waiting.2⟩
  | absent | idle | unsignaled => exact ⟨fence.trans holds.1, quiet holds.2⟩

/-- **No resource is in use** while none of the fences that guard it is in flight. -/
theorem Tracks.unused (tracks : Tracks guards v d) {r : R}
    (free : ∀ f, guards r f → v.phase f ≠ .inFlight) : ∀ job ∈ d.pending, r ∉ job.uses := by
  intro job member used
  have guard := tracks.guarded job member r used
  exact (tracks.phases job.fence).quiet (free _ guard) job member rfl

/-- The fence of a pending job is not signaled. -/
theorem Tracks.pending_unsignaled (tracks : Tracks guards v d) {job : Job F R L}
    (member : job ∈ d.pending) : d.fences job.fence ≠ some true := by
  intro signaled
  have here := tracks.phases job.fence
  cases known : v.phase job.fence with
  | inFlight =>
    rw [known] at here
    rcases here with here | here
    · exact here.2 job member rfl
    · exact absurd (signaled.symm.trans here.1) (by decide)
  | absent | idle | unsignaled =>
    rw [known] at here
    exact here.2 job member rfl

/-- **A call that is permitted is valid.** -/
theorem Tracks.permits_valid (tracks : Tracks guards v d) (permitted : v.Permits guards c) :
    c.Valid d := by
  have phase := tracks.phases
  cases c with
  | createFence f =>
    have here := phase f
    rw [show v.phase f = .absent from permitted] at here
    exact here.1
  | destroyFence f | reset f =>
    refine ⟨(phase f).exists permitted, (phase f).quiet ?_⟩
    rcases permitted with here | here <;> rw [here] <;> decide
  | wait f =>
    have here := phase f
    rcases permitted with known | known <;> rw [known] at here
    · exact here.imp_left And.left
    · exact Or.inl here.1
  | acquire r =>
    refine ⟨tracks.armed ▸ permitted.1, fun job member waits => ?_⟩
    exact tracks.unused permitted.2 job member (tracks.waited job member r waits)
  | use r => exact tracks.unused permitted
  | submit job =>
    have here := phase job.fence
    rw [permitted.1] at here
    exact ⟨here.1, here.2, fun r waits => tracks.armed ▸ (permitted.2.2 r waits).2⟩
  | waitIdle => trivial

end Phases

section Tracks

variable [DecidableEq F] {guards : R → F → Prop} {v : View F R} {d d' : Device F R L}
  {c : Call F R L} {f : F} {k : Nat}

/-- **One fence is changed** without a change to the jobs. -/
theorem Tracks.update (tracks : Tracks guards v d) {phase : Phase} {signaled : Option Bool}
    (here : phase.True { d with fences := Function.update d.fences f signaled } f) :
    Tracks guards { v with phase := Function.update v.phase f phase }
      { d with fences := Function.update d.fences f signaled } where
  phases other := by
    show (Function.update v.phase f phase other).True _ other
    by_cases same : other = f
    · subst same
      rw [Function.update_self]
      exact here
    · rw [Function.update_of_ne same]
      exact (tracks.phases other).congr (Function.update_of_ne same _ _) Iff.rfl
  armed := tracks.armed
  guarded := tracks.guarded
  waited := tracks.waited
  apart := tracks.apart

/-- **The view stays true while jobs complete.** -/
theorem Tracks.complete (tracks : Tracks guards v d) (done : d.complete k = some d') :
    Tracks guards v d' := by
  obtain ⟨job, found, rfl⟩ := Option.map_eq_some_iff.mp done
  obtain ⟨inside, rfl⟩ := List.getElem?_eq_some_iff.mp found
  have kept : ∀ other ∈ d.pending.eraseIdx k, other ∈ d.pending := fun other =>
    fun member => List.mem_of_mem_eraseIdx member
  have split : d.pending.Perm (d.pending[k] :: d.pending.eraseIdx k) := by
    have parts := List.take_append_drop k d.pending
    rw [List.drop_eq_getElem_cons inside] at parts
    rw [List.eraseIdx_eq_take_drop_succ]
    exact (List.Perm.of_eq parts.symm).trans List.perm_middle
  have apart := (split.map Job.fence).nodup_iff.mp tracks.apart
  rw [List.map_cons, List.nodup_cons] at apart
  have quiet : ∀ other ∈ d.pending.eraseIdx k, other.fence ≠ d.pending[k].fence :=
    fun other member same => apart.1 (same ▸ List.mem_map_of_mem member)
  refine ⟨fun f => ?_, tracks.armed, fun other member => tracks.guarded other (kept other member),
    fun other member => tracks.waited other (kept other member), apart.2⟩
  by_cases same : f = d.pending[k].fence
  · subst same
    have here := tracks.phases d.pending[k].fence
    have member : d.pending[k] ∈ d.pending := List.getElem_mem inside
    have flying : v.phase d.pending[k].fence = .inFlight := by
      by_contra landed
      exact here.quiet landed _ member rfl
    rw [flying]
    exact Or.inl ⟨Function.update_self .., quiet⟩
  · refine (tracks.phases f).congr (Function.update_of_ne same _ _) ?_
    constructor
    · rintro ⟨other, member, here⟩
      exact ⟨other, kept other member, here⟩
    · rintro ⟨other, member, rfl⟩
      refine ⟨other, ?_, rfl⟩
      rcases List.mem_cons.mp (split.mem_iff.mp member) with rfl | later
      · exact absurd rfl same
      · exact later

variable [DecidableEq R]

/-- **A job is submitted**: its fence is in flight. -/
theorem Tracks.submit (tracks : Tracks guards v d) {job : Job F R L}
    (permitted : v.Permits guards (.submit job)) :
    Tracks guards (v.after (.submit job))
      { d with armed := fun r => if r ∈ job.waits then false else d.armed r
               pending := d.pending ++ [job] } := by
  obtain ⟨unsignaled, guarded, waits⟩ := permitted
  have here := tracks.phases job.fence
  rw [unsignaled] at here
  constructor
  · intro f
    show (Function.update v.phase job.fence .inFlight f).True _ f
    by_cases same : f = job.fence
    · subst same
      rw [Function.update_self]
      exact Or.inr ⟨here.1, job, List.mem_append_right _ List.mem_cons_self, rfl⟩
    · rw [Function.update_of_ne same]
      refine (tracks.phases f).congr rfl ?_
      simp [Ne.symm same]
  · funext r
    simp only [View.after, tracks.armed]
  · intro other member r used
    rcases List.mem_append.mp member with before | new
    · exact tracks.guarded other before r used
    · rw [List.mem_singleton.mp new] at used ⊢
      exact guarded r used
  · intro other member r waited
    rcases List.mem_append.mp member with before | new
    · exact tracks.waited other before r waited
    · rw [List.mem_singleton.mp new] at waited ⊢
      exact (waits r waited).1
  · rw [List.map_append, List.map_singleton]
    refine tracks.apart.append (List.nodup_singleton _) fun f before new => ?_
    obtain ⟨other, member, rfl⟩ := List.mem_map.mp before
    exact here.2 other member (List.mem_singleton.mp new)

/-- **The view stays true behind a call.** -/
theorem Tracks.call (tracks : Tracks guards v d) (permitted : v.Permits guards c)
    (done : d.call c = some d') : Tracks guards (v.after c) d' := by
  have phase := tracks.phases
  cases c with
  | createFence f =>
    cases done
    have here := phase f
    rw [show v.phase f = .absent from permitted] at here
    exact tracks.update ⟨Function.update_self .., here.2⟩
  | destroyFence f =>
    cases done
    refine tracks.update ⟨Function.update_self .., (phase f).quiet ?_⟩
    rcases permitted with here | here <;> rw [here] <;> decide
  | wait f =>
    obtain ⟨signaled, ⟨⟩⟩ := Option.ite_none_right_eq_some.mp done
    have quiet : d.Quiet f := by
      have here := phase f
      rcases permitted with known | known <;> rw [known] at here
      · rcases here with here | here
        · exact here.2
        · exact absurd (signaled.symm.trans here.1) (by decide)
      · exact here.2
    have idle : Phase.True { d with fences := Function.update d.fences f (some true) } f .idle :=
      ⟨Function.update_self .., quiet⟩
    have tracks' := tracks.update idle
    rwa [← signaled, Function.update_eq_self] at tracks'
  | reset f =>
    cases done
    refine tracks.update ⟨Function.update_self .., (phase f).quiet ?_⟩
    rcases permitted with here | here <;> rw [here] <;> decide
  | acquire r =>
    cases done
    refine ⟨fun f => (phase f).congr rfl Iff.rfl, ?_, tracks.guarded, tracks.waited, tracks.apart⟩
    simp only [View.after, tracks.armed]
  | use r =>
    cases done
    exact tracks
  | submit job =>
    cases done
    exact tracks.submit permitted
  | waitIdle =>
    obtain ⟨empty, ⟨⟩⟩ := Option.ite_none_right_eq_some.mp done
    have none : d.pending = [] := List.isEmpty_iff.mp empty
    refine ⟨fun f => ?_, tracks.armed, tracks.guarded, tracks.waited, tracks.apart⟩
    show ((v.phase f).settled).True d f
    have here := phase f
    cases known : v.phase f with
    | inFlight =>
      rw [known] at here
      rcases here with here | ⟨_, job, member, _⟩
      · exact here
      · rw [none] at member
        cases member
    | absent | idle | unsignaled => rwa [known] at here

/-- **A call that is permitted waits for pending jobs only**: for those of the fence, or for all. -/
theorem Tracks.call_isSome (tracks : Tracks guards v d) (permitted : v.Permits guards c)
    (signaled : ∀ f, c = .wait f → d.Quiet f) (idle : c = .waitIdle → d.pending = []) :
    (d.call c).isSome := by
  cases c with
  | wait f =>
    rcases tracks.permits_valid permitted with here | ⟨_, job, member, here⟩
    · rw [Device.call, if_pos here]
      rfl
    · exact absurd here (signaled f rfl job member)
  | waitIdle =>
    rw [Device.call, idle rfl]
    rfl
  | createFence f | destroyFence f | reset f | acquire r | use r | submit job => rfl

end Tracks

end Vaudou.Fenced
