/-
**The formatter of `vd_fmt.h`, and `vd_snfmt`.**

`vsnfmtLoop` copies the format and replaces every `%{name}` by what the procedure of that name makes of
its arguments; it goes on counting where the buffer ends. `snfmt` runs it twice over the same arguments:
with no buffer, for the length of the arena's block, and then into the block.

The format is the bytes before its terminator. `va_list` is what the procedures take it for, a list that
`&args` is the address of.
-/

import Vaudou.Arena.Alloc
import Vaudou.Fmt.Conversions

namespace Vaudou

open Vaudou.Memory Vaudou.Text

/-- The bytes of the buffer behind what was written. -/
def available (n nwrite : Nat) : Nat := if n < nwrite then 0 else n - nwrite

/-- `if (nwrite < n) out[nwrite] = c`. -/
def putByte (out n nwrite : Nat) (c : UInt8) (state : FmtState) : FmtState :=
  if nwrite < n then { state with mem := state.mem.store (out + nwrite) [c] } else state

/-- The loop of `vd_fmt_vsnfmt`. A specifier without an end or without an entry returns 0. -/
def vsnfmtLoop (lut : List FmtTable) (out n : Nat) :
    (fuel : Nat) → (cf : List UInt8) → (nwrite : Nat) → FmtState → Option (FmtState × Nat)
  | _, [], nwrite, state => some (state, nwrite)
  | 0, _ :: _, _, _ => none
  | fuel + 1, c :: rest, nwrite, state =>
    if c = charByte '%' ∧ rest.head? = some (charByte '\x7b') then
      match rest.tail.dropWhile (· != charByte '\x7d') with
      | [] => some (state, 0)
      | _ :: behind =>
        match lut.find? fun entry => entry.s == rest.tail.takeWhile (· != charByte '\x7d') with
        | none => some (state, 0)
        | some entry => do
          let p ← entry.p
          let (state, used) ← p (out + nwrite) (available n nwrite) state
          vsnfmtLoop lut out n fuel behind ((nwrite + used) % 2 ^ 64) state
    else
      vsnfmtLoop lut out n fuel rest ((nwrite + 1) % 2 ^ 64) (putByte out n nwrite c state)

/-- `vd_fmt_vsnfmt`. Every round takes at least one byte of the format. -/
def vsnfmt (lut : List FmtTable) (out n : Nat) (fmt : List UInt8) (state : FmtState) :
    Option (FmtState × Nat) :=
  vsnfmtLoop lut out n fmt.length fmt 0 state

/-- `VD_str`. -/
structure Str where
  data : Nat
  len : Nat
deriving DecidableEq, Repr

/-- `vd_snfmt`. A block that is null may not be written to. -/
def snfmt (lut : List FmtTable) (mem : Mem) (a : Arena) (fmt : List UInt8) (args : List FmtArg) :
    Option (Mem × Arena × Str) := do
  let (measured, ret) ← vsnfmt lut 0 0 fmt ⟨mem, args⟩
  let (mem, a, data) := arenaAlloc measured.mem a ret 8
  if data = 0 ∧ ret ≠ 0 then none
  else do
    let (written, ret) ← vsnfmt lut data ret fmt ⟨mem, args⟩
    some (written.mem, a, ⟨data, ret % 2 ^ 32⟩)

/-! ### Rounds -/

section Rounds

variable {lut : List FmtTable} {out n nwrite : Nat} {state : FmtState} {rest : List UInt8}

/-- More fuel than the format has bytes changes nothing. -/
theorem vsnfmtLoop_fuel : ∀ (fuel fuel' : Nat) (cf : List UInt8) (nwrite : Nat) (state : FmtState),
    cf.length ≤ fuel → cf.length ≤ fuel' →
      vsnfmtLoop lut out n fuel cf nwrite state = vsnfmtLoop lut out n fuel' cf nwrite state
  | fuel, fuel', [], _, _, _, _ => by
    cases fuel <;> cases fuel' <;> rfl
  | fuel + 1, fuel' + 1, c :: rest, nwrite, state, enough, enough' => by
    have enough := Nat.le_of_succ_le_succ enough
    have enough' := Nat.le_of_succ_le_succ enough'
    rw [vsnfmtLoop, vsnfmtLoop]
    split
    · split
      · rfl
      · next behind dropped =>
        have shorter : behind.length + 1 ≤ rest.length := by
          rw [← List.length_cons, ← dropped]
          exact (List.dropWhile_sublist _).length_le.trans (List.tail_sublist rest).length_le
        split
        · rfl
        · refine bind_congr fun p => bind_congr fun result => ?_
          exact vsnfmtLoop_fuel fuel fuel' behind _ _ (by omega) (by omega)
    · exact vsnfmtLoop_fuel fuel fuel' rest _ _ enough enough'

/-- The formatter from `cf` on, with `nwrite` bytes written before. -/
def formatFrom (lut : List FmtTable) (out n : Nat) (cf : List UInt8) (nwrite : Nat)
    (state : FmtState) : Option (FmtState × Nat) :=
  vsnfmtLoop lut out n cf.length cf nwrite state

theorem vsnfmt_eq (fmt : List UInt8) : vsnfmt lut out n fmt state = formatFrom lut out n fmt 0 state :=
  rfl

@[simp] theorem formatFrom_nil : formatFrom lut out n [] nwrite state = some (state, nwrite) := rfl

/-- A byte that does not begin a specifier is copied. -/
theorem formatFrom_plain {c : UInt8}
    (plain : ¬ (c = charByte '%' ∧ rest.head? = some (charByte '\x7b'))) :
    formatFrom lut out n (c :: rest) nwrite state =
      formatFrom lut out n rest ((nwrite + 1) % 2 ^ 64) (putByte out n nwrite c state) :=
  if_neg plain

/-- A byte that is not a percent sign is copied. -/
theorem formatFrom_byte {c : UInt8} (plain : c ≠ charByte '%') :
    formatFrom lut out n (c :: rest) nwrite state =
      formatFrom lut out n rest ((nwrite + 1) % 2 ^ 64) (putByte out n nwrite c state) :=
  formatFrom_plain fun specifier => plain specifier.1

/-- `%{name}`. -/
def specifier (name : List UInt8) : List UInt8 := ascii "%\x7b" ++ name ++ ascii "\x7d"

/-- **A specifier** runs the procedure of its name. -/
theorem formatFrom_specifier {name : List UInt8} {p : FmtProcFmt}
    (closed : ∀ c ∈ name, c ≠ charByte '\x7d')
    (found : lut.find? (fun entry => entry.s == name) = some ⟨name, some p⟩) :
    formatFrom lut out n (specifier name ++ rest) nwrite state =
      (p (out + nwrite) (available n nwrite) state).bind fun result =>
        formatFrom lut out n rest ((nwrite + result.2) % 2 ^ 64) result.1 := by
  have inName : ∀ c ∈ name, (c != charByte '\x7d') = true := fun c member =>
    bne_iff_ne.mpr (closed c member)
  have taken : (name ++ charByte '\x7d' :: rest).takeWhile (· != charByte '\x7d') = name := by
    rw [List.takeWhile_append_of_pos inName, List.takeWhile_cons_of_neg (by simp), List.append_nil]
  have dropped : (name ++ charByte '\x7d' :: rest).dropWhile (· != charByte '\x7d') =
      charByte '\x7d' :: rest := by
    rw [List.dropWhile_append_of_pos inName, List.dropWhile_cons_of_neg (by simp)]
  have bytes : specifier name ++ rest =
      charByte '%' :: charByte '\x7b' :: (name ++ charByte '\x7d' :: rest) := by
    rw [specifier, List.append_assoc, List.append_assoc]
    rfl
  rw [bytes, formatFrom, List.length_cons, vsnfmtLoop, if_pos ⟨rfl, rfl⟩, List.tail_cons, dropped,
    taken, found]
  show (p (out + nwrite) (available n nwrite) state).bind _ = _
  congr 1
  funext result
  refine vsnfmtLoop_fuel _ _ rest _ _ ?_ le_rfl
  simp only [List.length_cons, List.length_append]
  omega

/-- The same, where the procedure is known to return. -/
theorem formatFrom_ran {name : List UInt8} {p : FmtProcFmt} {state' : FmtState} {used : Nat}
    (closed : ∀ c ∈ name, c ≠ charByte '\x7d')
    (found : lut.find? (fun entry => entry.s == name) = some ⟨name, some p⟩)
    (ran : p (out + nwrite) (available n nwrite) state = some (state', used)) :
    formatFrom lut out n (specifier name ++ rest) nwrite state =
      formatFrom lut out n rest ((nwrite + used) % 2 ^ 64) state' := by
  rw [formatFrom_specifier closed found, ran, Option.bind_some]

end Rounds

end Vaudou
