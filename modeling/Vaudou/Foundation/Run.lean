/-
**Runs of a partial step function.**

`run step s ops` performs the operations in order; `none` is an operation the state does not allow,
or one with undefined behaviour. An invariant kept by every step holds at the end of every run
(`run_invariant`), and a step-wise simulation lifts to whole runs (`run_simulates`).
-/

import Mathlib.Tactic.Common

namespace Vaudou.Run

variable {S T O : Type}

/-- Perform the operations in order. -/
def run (step : S → O → Option S) (s : S) : List O → Option S
  | [] => some s
  | op :: rest => (step s op).bind fun next => run step next rest

/-- The states a run can end in. -/
def Reachable (step : S → O → Option S) (start s : S) : Prop :=
  ∃ ops, run step start ops = some s

/-- Every operation meets the condition in the state it is performed in. -/
def Along (step : S → O → Option S) (C : S → O → Prop) (s : S) : List O → Prop
  | [] => True
  | op :: rest => C s op ∧ ∀ next, step s op = some next → Along step C next rest

/-- Every state that the run goes through meets the condition, the first one included. -/
def Throughout (step : S → O → Option S) (I : S → Prop) (s : S) : List O → Prop
  | [] => I s
  | op :: rest => I s ∧ ∀ next, step s op = some next → Throughout step I next rest

instance Along.decidable {step : S → O → Option S} {C : S → O → Prop} [∀ s op, Decidable (C s op)] :
    ∀ (s : S) (ops : List O), Decidable (Along step C s ops)
  | _, [] => inferInstanceAs (Decidable True)
  | s, op :: rest =>
    have : ∀ next, Decidable (Along step C next rest) := fun next => Along.decidable next rest
    inferInstanceAs (Decidable (C s op ∧ ∀ next ∈ step s op, Along step C next rest))

section Lemmas

variable {step : S → O → Option S}

@[simp] theorem run_nil (s : S) : run step s [] = some s := rfl

theorem run_cons (s : S) (op : O) (rest : List O) :
    run step s (op :: rest) = (step s op).bind fun next => run step next rest := rfl

theorem run_cons_some {s s' : S} {op : O} {rest : List O} :
    run step s (op :: rest) = some s' ↔
      ∃ next, step s op = some next ∧ run step next rest = some s' := by
  rw [run_cons, Option.bind_eq_some_iff]

theorem run_append (s : S) (first second : List O) :
    run step s (first ++ second) = (run step s first).bind fun next => run step next second := by
  induction first generalizing s with
  | nil => rfl
  | cons op rest ih =>
    rw [List.cons_append, run_cons, run_cons, Option.bind_assoc]
    exact congrArg _ (funext fun next => ih next)

theorem run_append_some {s s' : S} {first second : List O} :
    run step s (first ++ second) = some s' ↔
      ∃ next, run step s first = some next ∧ run step next second = some s' := by
  rw [run_append, Option.bind_eq_some_iff]

/-- **An invariant kept by every step holds at the end of every run.** -/
theorem run_invariant {I : S → Prop} (keeps : ∀ s op s', I s → step s op = some s' → I s') :
    ∀ {ops : List O} {s s' : S}, run step s ops = some s' → I s → I s'
  | [], _, _, ran, start => by
    cases ran
    exact start
  | op :: rest, s, s', ran, start => by
    obtain ⟨next, stepped, later⟩ := run_cons_some.mp ran
    exact run_invariant keeps later (keeps s op next start stepped)

/-- **A run is defined** if every operation of it is, wherever an invariant holds that it keeps. -/
theorem run_defined {I : S → Prop} : ∀ {ops : List O},
    (∀ s, ∀ op ∈ ops, I s → ∃ s', step s op = some s' ∧ I s') → ∀ {s : S}, I s →
      ∃ s', run step s ops = some s' ∧ I s'
  | [], _, s, start => ⟨s, rfl, start⟩
  | op :: rest, steps, s, start => by
    obtain ⟨next, stepped, later⟩ := steps s op List.mem_cons_self start
    obtain ⟨s', ran, ended⟩ :=
      run_defined (fun t other member => steps t other (List.mem_cons_of_mem _ member)) later
    exact ⟨s', run_cons_some.mpr ⟨next, stepped, ran⟩, ended⟩

/-- An invariant kept by every step that meets a condition holds at the end of every run along which
the condition is met. -/
theorem run_invariant_along {I : S → Prop} {C : S → O → Prop}
    (keeps : ∀ s op s', I s → C s op → step s op = some s' → I s') :
    ∀ {ops : List O} {s s' : S}, run step s ops = some s' → Along step C s ops → I s → I s'
  | [], _, _, ran, _, start => by
    cases ran
    exact start
  | op :: rest, s, s', ran, along, start => by
    obtain ⟨next, stepped, later⟩ := run_cons_some.mp ran
    exact run_invariant_along keeps later (along.2 next stepped)
      (keeps s op next start along.1 stepped)

/-- **The condition is met along a run** if it is met in front of every operation. -/
theorem along_iff {C : S → O → Prop} : ∀ {ops : List O} {s : S}, Along step C s ops ↔
    ∀ before op after, ops = before ++ op :: after → ∀ t, run step s before = some t → C t op
  | [], s => by
    refine iff_of_true trivial fun before op after split => ?_
    exact absurd split.symm (List.append_ne_nil_of_right_ne_nil before (List.cons_ne_nil op after))
  | first :: rest, s => by
    constructor
    · rintro ⟨here, later⟩ before op after split t ran
      cases before with
      | nil =>
        cases ran
        obtain ⟨rfl, -⟩ := List.cons.inj split
        exact here
      | cons head before =>
        obtain ⟨rfl, tail⟩ := List.cons.inj split
        obtain ⟨next, stepped, ran⟩ := run_cons_some.mp ran
        exact along_iff.mp (later next stepped) before op after tail t ran
    · intro met
      refine ⟨met [] first rest rfl s rfl, fun next stepped => along_iff.mpr ?_⟩
      intro before op after split t ran
      exact met (first :: before) op after (by rw [split]; rfl) t
        (run_cons_some.mpr ⟨next, stepped, ran⟩)

/-- **Two conditions that agree**, wherever an invariant of the state and of what is left of the run
holds that is kept as long as they are met, are met along the same runs. -/
theorem along_congr_left {I : S → List O → Prop} {C D : S → O → Prop}
    (agree : ∀ s op rest, I s (op :: rest) → (C s op ↔ D s op))
    (keeps : ∀ s op rest s', I s (op :: rest) → D s op → step s op = some s' → I s' rest) :
    ∀ {ops : List O} {s : S}, I s ops → (Along step C s ops ↔ Along step D s ops)
  | [], _, _ => Iff.rfl
  | op :: rest, s, start => by
    have here := agree s op rest start
    have later : D s op → ∀ next, step s op = some next →
        (Along step C next rest ↔ Along step D next rest) := fun met next stepped =>
      along_congr_left agree keeps (keeps s op rest next start met stepped)
    constructor
    · rintro ⟨met, after⟩
      exact ⟨here.mp met, fun next stepped => (later (here.mp met) next stepped).mp (after next stepped)⟩
    · rintro ⟨met, after⟩
      exact ⟨here.mpr met, fun next stepped => (later met next stepped).mpr (after next stepped)⟩

/-- The same with an invariant of the state, for the operations of the run. -/
theorem along_congr {I : S → Prop} {C D : S → O → Prop} {ops : List O}
    (agree : ∀ s, ∀ op ∈ ops, I s → (C s op ↔ D s op))
    (keeps : ∀ s, ∀ op ∈ ops, ∀ s', I s → D s op → step s op = some s' → I s') {s : S} (start : I s) :
    Along step C s ops ↔ Along step D s ops := by
  refine along_congr_left (I := fun s left => I s ∧ ∀ op ∈ left, op ∈ ops) ?_ ?_
    ⟨start, fun op member => member⟩
  · rintro s op rest ⟨holds, among⟩
    exact agree s op (among op List.mem_cons_self) holds
  · rintro s op rest s' ⟨holds, among⟩ met stepped
    exact ⟨keeps s op (among op List.mem_cons_self) s' holds met stepped,
      fun later member => among later (List.mem_cons_of_mem _ member)⟩

/-- A condition that another one implies, wherever an invariant holds that every step keeps. -/
theorem Along.imp {I : S → Prop} {C D : S → O → Prop}
    (keeps : ∀ s op s', I s → step s op = some s' → I s') (implies : ∀ s op, I s → C s op → D s op) :
    ∀ {ops : List O} {s : S}, I s → Along step C s ops → Along step D s ops
  | [], _, _, _ => trivial
  | op :: _, s, holds, ⟨here, later⟩ => ⟨implies s op holds here, fun next stepped =>
      Along.imp keeps implies (keeps s op next holds stepped) (later next stepped)⟩

theorem Throughout.start {I : S → Prop} {s : S} : ∀ {ops : List O}, Throughout step I s ops → I s
  | [], holds => holds
  | _ :: _, holds => holds.1

theorem Throughout.all {I : S → Prop} : ∀ {ops : List O} {s s' : S}, Throughout step I s ops →
    run step s ops = some s' → I s'
  | [], _, _, holds, ran => by
    cases ran
    exact holds
  | op :: rest, s, s', holds, ran => by
    obtain ⟨next, stepped, later⟩ := run_cons_some.mp ran
    exact Throughout.all (holds.2 next stepped) later

/-- **An invariant that steps keep** while two conditions are met holds throughout a run along which they
are, with what it gives. -/
theorem throughout_of_along {I J : S → Prop} {C D : S → O → Prop} (gives : ∀ s, I s → J s)
    (keeps : ∀ s op s', I s → C s op → D s op → step s op = some s' → I s') :
    ∀ {ops : List O} {s : S}, Along step C s ops → Along step D s ops → I s → Throughout step J s ops
  | [], s, _, _, start => gives s start
  | op :: _, s, ⟨first, along⟩, ⟨second, along'⟩, start => ⟨gives s start, fun next stepped =>
      throughout_of_along gives keeps (along next stepped) (along' next stepped)
        (keeps s op next start first second stepped)⟩

/-- **A property that single steps keep or lose** holds throughout the runs along which they keep it. -/
theorem throughout_iff_along {I J : S → Prop} {C : S → O → Prop}
    (decides : ∀ s op, J s → I s → ∃ next, step s op = some next ∧ J next ∧ (I next ↔ C s op)) :
    ∀ {ops : List O} {s : S}, J s → I s → (Throughout step I s ops ↔ Along step C s ops)
  | [], _, _, holds => iff_of_true holds trivial
  | op :: rest, s, inv, holds => by
    obtain ⟨next, stepped, inv', same⟩ := decides s op inv holds
    have later : I next → (Throughout step I next rest ↔ Along step C next rest) := fun holds' =>
      throughout_iff_along decides inv' holds'
    constructor
    · rintro ⟨-, after⟩
      have holds' := (after next stepped).start
      refine ⟨same.mp holds', fun other stepped' => ?_⟩
      obtain rfl := Option.some.inj (stepped.symm.trans stepped')
      exact (later holds').mp (after next stepped)
    · rintro ⟨met, after⟩
      refine ⟨holds, fun other stepped' => ?_⟩
      obtain rfl := Option.some.inj (stepped.symm.trans stepped')
      exact (later (same.mpr met)).mpr (after next stepped)

/-- The same for a run that is defined, along which a further condition is met. -/
theorem throughout_iff_along_of_run {I J : S → Prop} {C D : S → O → Prop}
    (decides : ∀ s op next, J s → I s → D s op → step s op = some next →
      J next ∧ (I next ↔ C s op)) :
    ∀ {ops : List O} {s s' : S}, run step s ops = some s' → Along step D s ops → J s → I s →
      (Throughout step I s ops ↔ Along step C s ops)
  | [], _, _, _, _, _, holds => iff_of_true holds trivial
  | op :: rest, s, s', ran, ⟨further, along⟩, inv, holds => by
    obtain ⟨next, stepped, ran'⟩ := run_cons_some.mp ran
    obtain ⟨inv', same⟩ := decides s op next inv holds further stepped
    have later : I next → (Throughout step I next rest ↔ Along step C next rest) := fun holds' =>
      throughout_iff_along_of_run decides ran' (along next stepped) inv' holds'
    constructor
    · rintro ⟨-, after⟩
      have holds' := (after next stepped).start
      refine ⟨same.mp holds', fun other stepped' => ?_⟩
      obtain rfl := Option.some.inj (stepped.symm.trans stepped')
      exact (later holds').mp (after next stepped)
    · rintro ⟨met, after⟩
      refine ⟨holds, fun other stepped' => ?_⟩
      obtain rfl := Option.some.inj (stepped.symm.trans stepped')
      exact (later (same.mpr met)).mpr (after next stepped)

theorem Reachable.start (s : S) : Reachable step s s := ⟨[], rfl⟩

theorem Reachable.invariant {I : S → Prop}
    (keeps : ∀ s op s', I s → step s op = some s' → I s') {start s : S}
    (reached : Reachable step start s) (initial : I start) : I s := by
  obtain ⟨ops, ran⟩ := reached
  exact run_invariant keeps ran initial

theorem Reachable.next {start s s' : S} {op : O} (reached : Reachable step start s)
    (stepped : step s op = some s') : Reachable step start s' := by
  obtain ⟨ops, ran⟩ := reached
  refine ⟨ops ++ [op], run_append_some.mpr ⟨s, ran, ?_⟩⟩
  rw [run_cons_some]
  exact ⟨s', stepped, rfl⟩

/-- **A step-wise simulation lifts to runs.** Every step of the first system is matched by the
second, operation for operation. -/
theorem run_simulates {step' : T → O → Option T} {R : S → T → Prop}
    (matched : ∀ s t op s', R s t → step s op = some s' → ∃ t', step' t op = some t' ∧ R s' t') :
    ∀ {ops : List O} {s s' : S} {t : T}, run step s ops = some s' → R s t →
      ∃ t', run step' t ops = some t' ∧ R s' t'
  | [], _, _, t, ran, related => by
    cases ran
    exact ⟨t, rfl, related⟩
  | op :: rest, s, s', t, ran, related => by
    obtain ⟨next, stepped, later⟩ := run_cons_some.mp ran
    obtain ⟨u, matching, still⟩ := matched s t op next related stepped
    obtain ⟨t', ran', final⟩ := run_simulates matched later still
    exact ⟨t', run_cons_some.mpr ⟨u, matching, ran'⟩, final⟩

end Lemmas

end Vaudou.Run
