/-
**The alignment of the regions of several threads.**

A call of `vd_arena_alloc_t` computes its padding from the `begin` that it reads, and adds it to the
`begin` that it finds later. What other calls have added in between moves the region off its alignment,
unless the padding is still the right one.

* `aligned_iff_padding` — a region is aligned exactly if its padding is that of the `begin` it is added to.
* `threadRun_aligned_iff` — the alignment of the regions of every interleaving.
* `threadRun_aligned_multiples` — sizes that are multiples of the alignment are safe.
-/

import Vaudou.Arena.Threads

namespace Vaudou

open Vaudou.Memory Vaudou.Run

/-- The regions handed out so far are aligned to 8. -/
def ThreadedArena.Aligned (s : ThreadedArena) : Prop := ∀ region ∈ s.regions, 8 ∣ region.1

/-- A call is made with an alignment of 8. -/
def ThreadStep.AlignsToEight : ThreadStep → Prop
  | .read _ _ align => align = 8
  | .add _ => True

/-- The region of a call ends inside the arena. -/
def ThreadedArena.EndsInside (s : ThreadedArena) (call : PendingCall) : Prop :=
  ((s.arena.begin + call.padding) % 2 ^ 64 + call.size) % 2 ^ 64 ≤ s.arena.endAddr

/-- The padding that a call computed is still that of `begin`, where its region ends inside the arena. -/
def PaddingStays (s : ThreadedArena) : ThreadStep → Prop
  | .read _ _ _ => True
  | .add thread => ∀ call ∈ s.pending thread, s.EndsInside call → call.padding = s.arena.padding 8

instance : ∀ step : ThreadStep, Decidable step.AlignsToEight
  | .read _ _ align => inferInstanceAs (Decidable (align = 8))
  | .add _ => inferInstanceAs (Decidable True)

instance (s : ThreadedArena) (call : PendingCall) : Decidable (s.EndsInside call) :=
  inferInstanceAs (Decidable (_ ≤ _))

instance (s : ThreadedArena) : ∀ step, Decidable (PaddingStays s step)
  | .read _ _ _ => inferInstanceAs (Decidable True)
  | .add thread => inferInstanceAs (Decidable (∀ call ∈ s.pending thread, _))

/-- `begin` is an address, and the paddings of the pending calls are less than 8. -/
structure ThreadedArena.Padded (s : ThreadedArena) : Prop where
  word : s.arena.begin < 2 ^ 64
  padding : ∀ thread, ∀ call ∈ s.pending thread, call.padding < 8

section Steps

variable {s s' : ThreadedArena} {step : ThreadStep}

/-- The padding to a multiple of 8. -/
theorem padding_eight {arena : Arena} (word : arena.begin < 2 ^ 64) :
    8 ∣ arena.begin + arena.padding 8 ∧ arena.padding 8 < 8 :=
  arena.padding_spec ⟨3, rfl⟩ (by norm_num) word.le

/-- **A region is aligned** exactly if its padding is that of the `begin` it is added to. -/
theorem aligned_iff_padding {arena : Arena} {padding : Nat} (word : arena.begin < 2 ^ 64)
    (small : padding < 8) : 8 ∣ (arena.begin + padding) % 2 ^ 64 ↔ padding = arena.padding 8 := by
  obtain ⟨divides, less⟩ := padding_eight word
  constructor
  · intro aligned
    omega
  · rintro rfl
    exact (Nat.dvd_mod_iff (by norm_num)).mpr divides

/-- A read changes no region. -/
theorem arenaRead_padded (padded : s.Padded) (thread size : Nat) :
    (arenaRead s thread size 8).Padded ∧ (arenaRead s thread size 8).regions = s.regions := by
  obtain ⟨-, less⟩ := padding_eight padded.word
  unfold arenaRead
  dsimp only
  split
  · exact ⟨padded, rfl⟩
  · refine ⟨⟨padded.word, fun other call member => ?_⟩, rfl⟩
    by_cases this : other = thread
    · subst this
      simp only [Function.update_self, Option.mem_def, Option.some.injEq] at member
      subst member
      exact less
    · simp only [Function.update_of_ne this] at member
      exact padded.padding other call member

/-- **An addition** hands out an aligned region exactly if the padding is still the right one. -/
theorem arenaFetchAndAdd_aligned (padded : s.Padded) {thread : Nat} {call : PendingCall}
    (pending : s.pending thread = some call) :
    (arenaFetchAndAdd s thread call).Padded ∧
      ((arenaFetchAndAdd s thread call).Aligned ↔
        s.Aligned ∧ (s.EndsInside call → call.padding = s.arena.padding 8)) := by
  have rest : ∀ other, ∀ c ∈ Function.update s.pending thread none other, c.padding < 8 := by
    intro other c member
    by_cases this : other = thread
    · subst this
      simp at member
    · rw [Function.update_of_ne this] at member
      exact padded.padding other c member
  have word : (s.arena.begin + (call.padding + call.size)) % 2 ^ 64 < 2 ^ 64 :=
    Nat.mod_lt _ (by norm_num)
  have aligned := aligned_iff_padding padded.word (padded.padding thread call pending)
  unfold arenaFetchAndAdd ThreadedArena.EndsInside
  dsimp only
  rw [← aligned]
  generalize (s.arena.begin + call.padding) % 2 ^ 64 = p
  generalize (p + call.size) % 2 ^ 64 = ends
  by_cases past : s.arena.endAddr < ends
  · rw [if_pos past]
    exact ⟨⟨word, rest⟩, (and_iff_left fun inside => absurd past (Nat.not_lt.mpr inside)).symm⟩
  · rw [if_neg past]
    refine ⟨⟨word, rest⟩, ?_⟩
    have inside := Nat.not_lt.mp past
    unfold ThreadedArena.Aligned
    by_cases null : p = 0
    · simp [null]
    · simp [null, inside, and_comm]

/-- **One step.** -/
theorem threadStep_aligned (padded : s.Padded) (eight : step.AlignsToEight)
    (stepped : threadStep s step = some s') :
    s'.Padded ∧ (s'.Aligned ↔ s.Aligned ∧ PaddingStays s step) := by
  cases step with
  | read thread size align =>
    obtain rfl : align = 8 := eight
    obtain ⟨-, same⟩ := Option.ite_none_right_eq_some.mp stepped
    cases same
    obtain ⟨padded', regions⟩ := arenaRead_padded padded thread size
    refine ⟨padded', ?_⟩
    simp [ThreadedArena.Aligned, regions, PaddingStays]
  | add thread =>
    obtain ⟨call, pending, rfl⟩ := Option.map_eq_some_iff.mp stepped
    obtain ⟨padded', aligned⟩ := arenaFetchAndAdd_aligned padded pending
    refine ⟨padded', ?_⟩
    simp [aligned, PaddingStays, pending]

end Steps

/-! ### Interleavings -/

section Interleavings

/-- The regions that a run adds are aligned exactly if the paddings stay right along it. -/
theorem threadRun_aligned : ∀ {steps : List ThreadStep} {t s : ThreadedArena}, t.Padded →
    (∀ step ∈ steps, step.AlignsToEight) → run threadStep t steps = some s →
      (s.Aligned ↔ t.Aligned ∧ Along threadStep PaddingStays t steps)
  | [], t, s, _, _, ran => by
    cases ran
    exact (and_iff_left trivial).symm
  | step :: rest, t, s, padded, eight, ran => by
    obtain ⟨next, stepped, later⟩ := run_cons_some.mp ran
    obtain ⟨padded', here⟩ := threadStep_aligned padded (eight step List.mem_cons_self) stepped
    rw [threadRun_aligned padded' (fun other member => eight other (List.mem_cons_of_mem _ member)) later,
      here, and_assoc]
    refine and_congr_right fun _ => and_congr_right fun _ => ⟨fun along other stepped' => ?_,
      fun along => along next stepped⟩
    obtain rfl := Option.some.inj (stepped.symm.trans stepped')
    exact along

/-- One thread asks for one byte, and another for 20 after it. -/
def oneAfterTheOther : List ThreadStep := [.read 0 1 8, .add 0, .read 1 20 8, .add 1]

end Interleavings

/-! ### Multiples of the alignment -/

section Multiples

variable {s s' : ThreadedArena} {step : ThreadStep}

/-- `begin` and all sizes are multiples of 8, so that no call needs a padding. -/
structure ThreadedArena.Multiples (s : ThreadedArena) : Prop where
  start : 8 ∣ s.arena.begin
  pending : ∀ thread, ∀ call ∈ s.pending thread, call.padding = 0 ∧ 8 ∣ call.size

theorem padding_of_multiple {arena : Arena} (word : arena.begin < 2 ^ 64) (multiple : 8 ∣ arena.begin) :
    arena.padding 8 = 0 := by
  obtain ⟨divides, less⟩ := padding_eight word
  omega

/-- **One step** with a size that is a multiple of 8. -/
theorem threadStep_multiples (padded : s.Padded) (multiples : s.Multiples) (eight : step.AlignsToEight)
    (size : 8 ∣ step.size) (stepped : threadStep s step = some s') :
    s'.Multiples ∧ PaddingStays s step := by
  have zero := padding_of_multiple padded.word multiples.start
  cases step with
  | read thread size' align =>
    obtain rfl : align = 8 := eight
    obtain ⟨-, same⟩ := Option.ite_none_right_eq_some.mp stepped
    cases same
    refine ⟨?_, trivial⟩
    unfold arenaRead
    dsimp only
    split
    · exact multiples
    · refine ⟨multiples.start, fun other call member => ?_⟩
      by_cases this : other = thread
      · subst this
        simp only [Function.update_self, Option.mem_def, Option.some.injEq] at member
        subst member
        exact ⟨zero, size⟩
      · simp only [Function.update_of_ne this] at member
        exact multiples.pending other call member
  | add thread =>
    obtain ⟨call, pending, rfl⟩ := Option.map_eq_some_iff.mp stepped
    obtain ⟨none, multiple⟩ := multiples.pending thread call pending
    have start : 8 ∣ (s.arena.begin + (call.padding + call.size)) % 2 ^ 64 := by
      rw [Nat.dvd_mod_iff (by norm_num), none, Nat.zero_add]
      exact Nat.dvd_add multiples.start multiple
    have rest : ∀ other, ∀ c ∈ Function.update s.pending thread Option.none other,
        c.padding = 0 ∧ 8 ∣ c.size := by
      intro other c member
      by_cases this : other = thread
      · subst this
        simp at member
      · rw [Function.update_of_ne this] at member
        exact multiples.pending other c member
    refine ⟨?_, fun other here _ => ?_⟩
    · unfold arenaFetchAndAdd
      dsimp only
      split
      · exact ⟨start, rest⟩
      · exact ⟨start, rest⟩
    · obtain rfl := Option.some.inj (pending.symm.trans here)
      rw [zero, none]

/-- **Sizes that are multiples of 8 are safe**, on an arena whose `begin` is a multiple of 8. -/
theorem threadRun_aligned_multiples (mem : Mem) (arena : Arena) (word : arena.begin < 2 ^ 64)
    (start : 8 ∣ arena.begin) (steps : List ThreadStep)
    (eight : ∀ step ∈ steps, step.AlignsToEight ∧ 8 ∣ step.size) {s : ThreadedArena}
    (ran : run threadStep (.start mem arena) steps = some s) : s.Aligned := by
  have along : Along threadStep (fun _ step => step.AlignsToEight ∧ 8 ∣ step.size) (.start mem arena)
      steps := along_iff.mpr fun before step after split t _ => eight step (by
        rw [split]
        exact List.mem_append_right before List.mem_cons_self)
  have kept := run_invariant_along (I := fun t => t.Padded ∧ t.Multiples ∧ t.Aligned) ?_ ran along
    ⟨⟨word, fun _ _ member => by cases member⟩, ⟨start, fun _ _ member => by cases member⟩,
      fun _ member => by cases member⟩
  · exact kept.2.2
  · rintro t step t' ⟨padded, multiples, aligned⟩ ⟨align, size⟩ stepped
    obtain ⟨padded', same⟩ := threadStep_aligned padded align stepped
    obtain ⟨multiples', stays⟩ := threadStep_multiples padded multiples align size stepped
    exact ⟨padded', multiples', same.mpr ⟨aligned, stays⟩⟩

end Multiples

end Vaudou
