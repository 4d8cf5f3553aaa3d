/-
**The sizes that the buddy allocator works with.**

* `roundUpToNextPowerOf2_spec`, `roundUpToNextPowerOf2_exact` — the sizes and alignments that a heap is
  built with.
* `alignForward_spec`, `alignForward_wraps` — the next multiple of the alignment, or 0.
* `sizeReq_fits` — up to `2 ^ 63`, the requirement is the least power of two, from the alignment on, that
  holds the request and a header of 16 bytes.
* `sizeReq_beyond` — behind that the loop is stuck, or the requirement is the bare alignment.
-/

import Vaudou.Buddy.Tiling

namespace Vaudou

open Vaudou.PowerOfTwo

variable {alloc : BuddyAlloc} {m size : Nat}

/-! ### Rounding -/

/-- **Rounding up to a power of two is exact**, and wraps to 0 above `2 ^ 63`. -/
theorem roundUpToNextPowerOf2_spec {x : Nat} (pos : 0 < x) (word : x < 2 ^ 64) :
    (x ≤ 2 ^ 63 → ∃ k, roundUpToNextPowerOf2 x = 2 ^ k ∧ x ≤ 2 ^ k ∧ 2 ^ k < 2 * x) ∧
      (2 ^ 63 < x → roundUpToNextPowerOf2 x = 0) := by
  unfold roundUpToNextPowerOf2
  rw [if_neg pos.ne']
  by_cases power : x &&& (x - 1) = 0
  · rw [if_pos power]
    obtain ⟨k, rfl⟩ := (Nat.and_sub_one_eq_zero_iff_isPowerOfTwo pos.ne').mp power
    refine ⟨fun _ => ⟨k, rfl, Nat.le_refl _, by omega⟩, fun large => ?_⟩
    have low := (Nat.pow_lt_pow_iff_right (by decide)).mp large
    have high := (Nat.pow_lt_pow_iff_right (by decide)).mp word
    omega
  · rw [if_neg power]
    have nonzero : x - 1 ≠ 0 := by
      intro zero
      rw [zero] at power
      exact power (Nat.and_zero x)
    have low := Nat.log2_self_le nonzero
    have high := Nat.lt_log2_self (n := x - 1)
    rw [smearAll_eq nonzero (by omega), Nat.sub_add_cancel Nat.one_le_two_pow]
    have double : 2 ^ ((x - 1).log2 + 1) = 2 * 2 ^ (x - 1).log2 := by
      rw [pow_succ]
      omega
    constructor
    · intro small
      have exponent : (x - 1).log2 < 63 := (Nat.log2_lt nonzero).mpr (by omega)
      have fits : 2 ^ ((x - 1).log2 + 1) < 2 ^ 64 := Nat.pow_lt_pow_right (by decide) (by omega)
      rw [Nat.mod_eq_of_lt fits]
      exact ⟨_, rfl, by omega, by omega⟩
    · intro large
      have below : (x - 1).log2 < 64 := (Nat.log2_lt nonzero).mpr (by omega)
      have above : ¬ (x - 1).log2 < 63 := fun small => by
        have := (Nat.log2_lt nonzero).mp small
        omega
      rw [show (x - 1).log2 = 63 by omega]
      exact Nat.mod_self _

/-- **Up to `2 ^ 63`** a size becomes the power of two that is at least the size and less than twice it. -/
theorem roundUpToNextPowerOf2_exact {x : Nat} (pos : 1 ≤ x) (small : x ≤ 2 ^ 63) :
    (∃ k, roundUpToNextPowerOf2 x = 2 ^ k) ∧ x ≤ roundUpToNextPowerOf2 x ∧
      roundUpToNextPowerOf2 x < 2 * x := by
  obtain ⟨exact, -⟩ := roundUpToNextPowerOf2_spec pos (show x < 2 ^ 64 by omega)
  obtain ⟨k, rounded, low, high⟩ := exact small
  rw [rounded]
  exact ⟨⟨k, rfl⟩, low, high⟩

/-- One above a power of two, and the largest one. -/
theorem roundUpToNextPowerOf2_exact_words :
    ((∃ k, roundUpToNextPowerOf2 (2 ^ 40 + 1) = 2 ^ k) ∧ 2 ^ 40 + 1 ≤ roundUpToNextPowerOf2 (2 ^ 40 + 1) ∧
        roundUpToNextPowerOf2 (2 ^ 40 + 1) < 2 * (2 ^ 40 + 1)) ∧
      (∃ k, roundUpToNextPowerOf2 (2 ^ 63) = 2 ^ k) ∧ 2 ^ 63 ≤ roundUpToNextPowerOf2 (2 ^ 63) ∧
        roundUpToNextPowerOf2 (2 ^ 63) < 2 * 2 ^ 63 :=
  ⟨roundUpToNextPowerOf2_exact (x := 2 ^ 40 + 1) (by norm_num) (by norm_num),
    roundUpToNextPowerOf2_exact (x := 2 ^ 63) (by norm_num) le_rfl⟩

example : roundUpToNextPowerOf2 (2 ^ 40 + 1) = 2 ^ 41 := by decide

theorem roundUpToNextPowerOf2_two_pow (k : Nat) : roundUpToNextPowerOf2 (2 ^ k) = 2 ^ k := by
  have pos := Nat.two_pow_pos k
  rw [roundUpToNextPowerOf2, if_neg pos.ne',
    if_pos ((Nat.and_sub_one_eq_zero_iff_isPowerOfTwo pos.ne').mpr ⟨k, rfl⟩)]

theorem isPowerOfTwo_two_pow (m : Nat) : isPowerOfTwo (2 ^ m) = true := by
  have pos := Nat.two_pow_pos m
  have power := (Nat.and_sub_one_eq_zero_iff_isPowerOfTwo pos.ne').mpr ⟨m, rfl⟩
  rw [isPowerOfTwo, power]
  simp

/-- **`vd_buddy_alloc__align_forward`** moves to the next multiple of the alignment. -/
theorem alignForward_spec {ptr : Nat} (fits : ptr + 2 ^ m ≤ 2 ^ 64) :
    ∃ aligned, alignForward ptr (2 ^ m) = some aligned ∧ ptr ≤ aligned ∧ aligned < ptr + 2 ^ m ∧
      2 ^ m ∣ aligned := by
  have below := Nat.mod_lt ptr (Nat.two_pow_pos m)
  have parts := Nat.mod_add_div ptr (2 ^ m)
  rw [alignForward, if_pos (isPowerOfTwo_two_pow m), Nat.and_two_pow_sub_one_eq_mod]
  by_cases multiple : ptr % 2 ^ m = 0
  · rw [if_neg (fun rest => rest multiple)]
    exact ⟨ptr, rfl, Nat.le_refl _, by omega, Nat.dvd_of_mod_eq_zero multiple⟩
  · rw [if_pos multiple, Nat.mod_eq_of_lt (by omega)]
    refine ⟨_, rfl, by omega, by omega, ptr / 2 ^ m + 1, ?_⟩
    rw [Nat.mul_succ]
    omega

/-- Behind the last multiple it wraps. -/
theorem alignForward_wraps {ptr : Nat} (word : ptr < 2 ^ 64) (exponent : m ≤ 63)
    (wraps : 2 ^ 64 < ptr + 2 ^ m) : alignForward ptr (2 ^ m) = some 0 := by
  have whole : 2 ^ m ∣ 2 ^ 64 := Nat.pow_dvd_pow 2 (by omega)
  obtain ⟨multiples, split⟩ := whole
  have last : 2 ^ m * (multiples - 1) + 2 ^ m = 2 ^ 64 := by
    rw [← Nat.mul_succ, split]
    congr 1
    have : multiples ≠ 0 := by
      rintro rfl
      omega
    omega
  obtain ⟨beyond, rfl⟩ := Nat.exists_eq_add_of_lt (show 2 ^ m * (multiples - 1) < ptr by omega)
  have rest : (2 ^ m * (multiples - 1) + beyond + 1) % 2 ^ m = beyond + 1 := by
    rw [Nat.add_assoc, Nat.mul_add_mod]
    exact Nat.mod_eq_of_lt (by omega)
  rw [alignForward, if_pos (isPowerOfTwo_two_pow m), Nat.and_two_pow_sub_one_eq_mod, rest,
    if_pos (Nat.succ_ne_zero beyond)]
  exact congrArg some (by omega)

/-! ### The size requirement -/

/-- **The doubling stops at the least power of two** from the start on. -/
theorem sizeReqLoop_spec (small : size ≤ 2 ^ 63) : ∀ (fuel j : Nat), j ≤ 63 → 63 - j < fuel →
    ∃ k, sizeReqLoop fuel size (2 ^ j) = some (2 ^ k) ∧ j ≤ k ∧ k ≤ 63 ∧
      ∀ i, j ≤ i → (size ≤ 2 ^ i ↔ k ≤ i)
  | 0, _, _, enough => absurd enough (Nat.not_lt_zero _)
  | fuel + 1, j, within, enough => by
    rw [sizeReqLoop]
    by_cases more : 2 ^ j < size
    · have below : j < 63 := two_pow_lt_iff.mp (more.trans_le small)
      rw [if_pos more, ← pow_succ, Nat.mod_eq_of_lt (two_pow_lt_iff.mpr (by omega))]
      obtain ⟨k, ran, later, top, least⟩ := sizeReqLoop_spec small fuel (j + 1) below (by omega)
      refine ⟨k, ran, by omega, top, fun i from_j => ?_⟩
      rcases Nat.lt_or_eq_of_le from_j with beyond | rfl
      · exact least i beyond
      · exact iff_of_false (Nat.not_le.mpr more) (by omega)
    · rw [if_neg more]
      refine ⟨j, rfl, Nat.le_refl j, within, fun i from_j => iff_of_true ?_ from_j⟩
      exact (Nat.not_lt.mp more).trans (two_pow_le_iff.mpr from_j)

/-- Above `2 ^ 63` the doubling never stops: it goes on to 0. -/
theorem sizeReqLoop_stuck (large : 2 ^ 63 < size) : ∀ (fuel actualSize : Nat),
    (actualSize = 0 ∨ ∃ j ≤ 63, actualSize = 2 ^ j) → sizeReqLoop fuel size actualSize = none
  | 0, _, _ => rfl
  | fuel + 1, _, Or.inl rfl => by
    rw [sizeReqLoop, if_pos (by omega)]
    exact sizeReqLoop_stuck large fuel _ (Or.inl rfl)
  | fuel + 1, _, Or.inr ⟨j, within, rfl⟩ => by
    have power : 2 ^ j ≤ 2 ^ 63 := two_pow_le_iff.mpr within
    rw [sizeReqLoop, if_pos (by omega), ← pow_succ]
    refine sizeReqLoop_stuck large fuel _ ?_
    rcases Nat.lt_or_eq_of_le within with below | rfl
    · exact Or.inr ⟨j + 1, below, Nat.mod_eq_of_lt (two_pow_lt_iff.mpr (by omega))⟩
    · exact Or.inl (Nat.mod_self _)

/-- The requirement depends on the alignment only. -/
theorem sizeReq_congr {alloc' : BuddyAlloc} (same : alloc.alignment = alloc'.alignment) :
    sizeReq alloc size = sizeReq alloc' size := by
  rw [sizeReq, sizeReq, same]

/-- **The size requirement** is the least power of two, from the alignment on, with room for the header
and the request. -/
theorem sizeReq_fits (alignment : alloc.alignment = 2 ^ m) (exponent : m ≤ 63)
    (small : size + 16 ≤ 2 ^ 63) :
    ∃ k, sizeReq alloc size = some (2 ^ k) ∧ m ≤ k ∧ k ≤ 63 ∧
      ∀ i, m ≤ i → (size + 16 ≤ 2 ^ i ↔ k ≤ i) := by
  have power : 2 ^ m ≤ 2 ^ 63 := two_pow_le_iff.mpr exponent
  obtain ⟨request, forward, low, high, multiple⟩ :=
    alignForward_spec (show size + 16 + 2 ^ m ≤ 2 ^ 64 by omega)
  have same : ∀ i, m ≤ i → (request ≤ 2 ^ i ↔ size + 16 ≤ 2 ^ i) := fun i from_m =>
    ⟨low.trans, fun fits => Nat.le_of_lt_add_of_dvd (by omega) multiple (Nat.pow_dvd_pow 2 from_m)⟩
  obtain ⟨k, ran, from_m, top, least⟩ :=
    sizeReqLoop_spec ((same 63 exponent).mpr small) 65 m exponent (by omega)
  refine ⟨k, ?_, from_m, top, fun i from_m => (same i from_m).symm.trans (least i from_m)⟩
  rw [sizeReq, alignment, buddyBlockSize, Nat.mod_eq_of_lt (by omega), forward]
  exact ran

/-- At the greatest alignment the requirement is the alignment, whatever is asked for. -/
theorem sizeReq_top (alignment : alloc.alignment = 2 ^ 63) : sizeReq alloc size = some (2 ^ 63) := by
  have word := Nat.mod_lt (size + 16) (Nat.two_pow_pos 64)
  rw [sizeReq, alignment, buddyBlockSize]
  by_cases wraps : 2 ^ 64 < (size + 16) % 2 ^ 64 + 2 ^ 63
  · rw [alignForward_wraps word (Nat.le_refl 63) wraps]
    rfl
  · obtain ⟨request, forward, low, high, multiple⟩ := alignForward_spec (Nat.not_lt.mp wraps)
    have small : request ≤ 2 ^ 63 := Nat.le_of_lt_add_of_dvd (by omega) multiple (Nat.dvd_refl _)
    rw [forward]
    show sizeReqLoop 65 request (2 ^ 63) = _
    rw [sizeReqLoop, if_neg (Nat.not_lt.mpr small)]

/-- **Above `2 ^ 63`** the loop is stuck, or the sum has wrapped and the requirement is the bare
alignment. -/
theorem sizeReq_beyond (alignment : alloc.alignment = 2 ^ m) (from_four : 4 ≤ m) (exponent : m ≤ 62)
    (large : 2 ^ 63 < size + 16) (word : size < 2 ^ 64) :
    sizeReq alloc size = none ∨ sizeReq alloc size = some (2 ^ m) := by
  have power : 2 ^ m ≤ 2 ^ 62 := two_pow_le_iff.mpr exponent
  have pos := Nat.two_pow_pos m
  have bare : ∀ request ≤ 2 ^ m, sizeReqLoop 65 request (2 ^ m) = some (2 ^ m) := fun request small => by
    rw [sizeReqLoop, if_neg (Nat.not_lt.mpr small)]
  rw [sizeReq, alignment, buddyBlockSize]
  by_cases wraps : 2 ^ 64 < (size + 16) % 2 ^ 64 + 2 ^ m
  · rw [alignForward_wraps (Nat.mod_lt _ (Nat.two_pow_pos 64)) (by omega) wraps]
    exact Or.inr (bare 0 (Nat.zero_le _))
  · obtain ⟨request, forward, low, high, multiple⟩ := alignForward_spec (Nat.not_lt.mp wraps)
    rw [forward]
    by_cases sum : size + 16 < 2 ^ 64
    · rw [Nat.mod_eq_of_lt sum] at low
      exact Or.inl (sizeReqLoop_stuck (large.trans_le low) 65 _ (Or.inr ⟨m, by omega, rfl⟩))
    · have least : 2 ^ 4 ≤ 2 ^ m := two_pow_le_iff.mpr from_four
      refine Or.inr (bare request (Nat.le_of_lt_add_of_dvd ?_ multiple (Nat.dvd_refl _)))
      omega

/-- A requirement is a power of two, from the alignment on. -/
theorem sizeReq_power (alignment : alloc.alignment = 2 ^ m) (exponent : m ≤ 63) {actualSize : Nat}
    (required : sizeReq alloc size = some actualSize) : ∃ k, actualSize = 2 ^ k ∧ m ≤ k := by
  obtain ⟨request, -, ran⟩ := Option.bind_eq_some_iff.mp required
  rw [alignment] at ran
  rcases Nat.lt_or_ge (2 ^ 63) request with large | small
  · rw [sizeReqLoop_stuck large 65 _ (Or.inr ⟨m, exponent, rfl⟩)] at ran
    cases ran
  · obtain ⟨k, ran', from_m, -⟩ := sizeReqLoop_spec small 65 m exponent (by omega)
    exact ⟨k, Option.some.inj (ran.symm.trans ran'), from_m⟩

/-- The powers of two from 16 on are the sizes of blocks. -/
theorem two_pow_eq_size {k : Nat} (from_four : 4 ≤ k) : ∃ order, 2 ^ k = (Block.mk order true).size := by
  obtain ⟨order, rfl⟩ := Nat.exists_eq_add_of_le from_four
  exact ⟨order, pow_add 2 4 order⟩

/-- With an alignment of 16 the requirement is the size of a block that has room for the header and the
request. -/
theorem sizeReq_spec (aligned : alloc.alignment = 16) (small : size ≤ 2 ^ 62) :
    ∃ k, sizeReq alloc size = some (Block.mk k true).size ∧
      size + 16 ≤ (Block.mk k true).size := by
  obtain ⟨k, required, from_four, -, least⟩ :=
    sizeReq_fits (m := 4) aligned (by decide) (show size + 16 ≤ 2 ^ 63 by omega)
  have room := (least k from_four).mpr (Nat.le_refl k)
  obtain ⟨order, power⟩ := two_pow_eq_size from_four
  rw [power] at required room
  exact ⟨order, required, room⟩

end Vaudou
