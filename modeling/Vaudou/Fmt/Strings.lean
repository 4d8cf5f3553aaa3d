/-
**The string conversions.**

`StrSpec.proc_measure` and `StrSpec.proc_write` say what the four procedures do with their own argument,
without a buffer and with room: they return the length, and write the rendering. A path of `2 ^ 31` bytes
or more overflows the loop's index (`pathLoop_long`).
-/

import Vaudou.Fmt.Rendering

namespace Vaudou

open Vaudou.Memory Vaudou.Text

variable {mem : Mem} {data out n : Nat} {content : List UInt8} {rest : List FmtArg}

/-! ### The loops -/

section Loops

/-- **The path loop writes the rest of the path.** -/
theorem pathLoop_short {len : Nat} (apart : data + len ≤ out ∨ out + len ≤ data)
    (short : len < 2 ^ 31) : ∀ (rounds i : Nat) (mem : Mem), i + rounds = len →
      pathLoop out data rounds i mem =
        some (mem.store (out + i) ((mem.load (data + i) rounds).map slashed))
  | 0, i, mem, _ => by
    rw [pathLoop]
    simp [Mem.load]
  | rounds + 1, i, mem, whole => by
    have change := store_changedWithin mem (out + i) [slashed (mem (data + i))]
    have unread : (mem.store (out + i) [slashed (mem (data + i))]).load (data + (i + 1)) rounds =
        mem.load (data + (i + 1)) rounds :=
      load_congr (change.same (by simp only [List.length_singleton]; omega))
    have pieces : (mem.load (data + i) (rounds + 1)).map slashed =
        [slashed (mem (data + i))] ++ (mem.load (data + (i + 1)) rounds).map slashed := by
      rw [Nat.add_comm rounds, load_append, List.map_append]
      rfl
    rw [pathLoop, if_pos (by omega), pieces, store_append]
    exact (pathLoop_short apart short rounds (i + 1) _ (by omega)).trans (by rw [unread]; rfl)

/-- A longer path overflows the index. -/
theorem pathLoop_long {len : Nat} (long : 2 ^ 31 ≤ len) : ∀ (rounds i : Nat) (mem : Mem),
    0 < rounds → i + rounds = len → pathLoop out data rounds i mem = none
  | rounds + 1, i, mem, _, whole => by
    rw [pathLoop]
    split
    · next inside =>
      have more : 0 < rounds := by omega
      exact pathLoop_long long rounds (i + 1) _ more (by omega)
    · rfl

end Loops

/-! ### The procedures -/

section Procedures

variable {spec : StrSpec}

theorem copyString_measure (mem : Mem) (args : List FmtArg) (out data len : Nat) :
    copyString out 0 data len ⟨mem, args⟩ = (⟨mem, args⟩, len) := by
  unfold copyString
  split
  · rfl
  · next empty =>
    obtain rfl : len = 0 := by omega
    simp [Mem.load]

theorem copyString_write (mem : Mem) (args : List FmtArg) {len : Nat} (room : len ≤ n) :
    copyString out n data len ⟨mem, args⟩ = (⟨mem.store out (mem.load data len), args⟩, len) :=
  if_neg (Nat.not_lt.mpr room)

/-- **Without a buffer** a string procedure reads its argument and returns the length. -/
theorem StrSpec.proc_measure (holds : spec.Holds mem data content) :
    spec.proc out 0 ⟨mem, spec.arg data content.length :: rest⟩ =
      some (⟨mem, rest⟩, content.length) := by
  cases spec with
  | stru32 => exact congrArg some (copyString_measure mem rest out data _)
  | stru64 => exact congrArg some (copyString_measure mem rest out data _)
  | cstr =>
    show ((strlen mem data).bind fun len => some (copyString out 0 data len ⟨mem, rest⟩)) = _
    rw [holds.2.strlen, Option.bind_some, copyString_measure]
  | pathu32 =>
    show (if 0 < content.length then _ else (pathLoop out data content.length 0 mem).map _) = _
    split
    · rfl
    · next empty =>
      obtain rfl := List.length_eq_zero_iff.mp (Nat.eq_zero_of_not_pos empty)
      rfl

/-- **With room** a string procedure writes the rendering, if the index of a path loop can. -/
theorem StrSpec.proc_write (holds : spec.Holds mem data content) (room : content.length ≤ n)
    (apart : data + content.length ≤ out ∨ out + content.length ≤ data)
    (short : (FmtItem.str spec data content).Short) :
    spec.proc out n ⟨mem, spec.arg data content.length :: rest⟩ =
      some (⟨mem.store out (spec.rendering content), rest⟩, content.length) := by
  obtain ⟨loaded, rest'⟩ := id holds
  cases spec with
  | stru32 =>
    show some (copyString out n data content.length ⟨mem, rest⟩) = _
    rw [copyString_write mem rest room, loaded]
    rfl
  | stru64 =>
    show some (copyString out n data content.length ⟨mem, rest⟩) = _
    rw [copyString_write mem rest room, loaded]
    rfl
  | cstr =>
    show ((strlen mem data).bind fun len => some (copyString out n data len ⟨mem, rest⟩)) = _
    rw [holds.2.strlen, Option.bind_some, copyString_write mem rest room, loaded]
    rfl
  | pathu32 =>
    show (if n < content.length then _ else (pathLoop out data content.length 0 mem).map _) = _
    rw [if_neg (Nat.not_lt.mpr room), pathLoop_short apart short _ 0 mem (Nat.zero_add _),
      Nat.add_zero, Nat.add_zero, loaded]
    rfl

/-- A long path is undefined. -/
theorem StrSpec.proc_long (room : content.length ≤ n)
    (long : ¬ (FmtItem.str spec data content).Short) :
    spec.proc out n ⟨mem, spec.arg data content.length :: rest⟩ = none := by
  cases spec with
  | stru32 => exact absurd trivial long
  | stru64 => exact absurd trivial long
  | cstr => exact absurd trivial long
  | pathu32 =>
    have long : 2 ^ 31 ≤ content.length := Nat.not_lt.mp long
    show (if n < content.length then _ else (pathLoop out data content.length 0 mem).map _) = _
    rw [if_neg (Nat.not_lt.mpr room), pathLoop_long long _ 0 mem (by omega) (Nat.zero_add _)]
    rfl

/-- A string procedure does not read an integer. -/
theorem StrSpec.proc_word (spec : StrSpec) (bits : Nat) (v : Int) :
    spec.proc out n ⟨mem, .word bits v :: rest⟩ = none := by
  cases spec <;> rfl

theorem StrSpec.rendering_length (spec : StrSpec) :
    (spec.rendering content).length = content.length := by
  cases spec <;> simp [StrSpec.rendering]

theorem StrSpec.length_le_extent (spec : StrSpec) (content : List UInt8) :
    content.length ≤ spec.extent content := by
  cases spec <;> simp [StrSpec.extent]

/-- Whether a string is there depends on its own bytes only. -/
theorem StrSpec.Holds.congr {mem' : Mem} (holds : spec.Holds mem data content)
    (same : Same mem mem' data (spec.extent content)) : spec.Holds mem' data content := by
  obtain ⟨loaded, facts⟩ := holds
  refine ⟨?_, ?_⟩
  · rw [load_congr (same.part le_rfl (Nat.add_le_add_left (spec.length_le_extent content) data)), loaded]
  · cases spec with
    | cstr => exact IsCString.congr facts same
    | _ => exact facts

end Procedures

end Vaudou
