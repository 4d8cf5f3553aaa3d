/-
**The integer conversions render exactly.**

The digits of a value go into the scratch buffer from its end, two a round. `digitsLoop_spec` carries
what is left of the value and what is already in the buffer; `IntConversion.text_spec` is the text that
the buffer holds in the end, and `IntConversion.toStr_spec` the whole procedure, for the values that the
type's own arithmetic can handle (`IntConversion.Renders`).
-/

import Vaudou.Fmt.Conversions
import Mathlib.Tactic.Linarith

namespace Vaudou

open Vaudou.Memory Vaudou.Text

variable {c : IntConversion}

/-! ### The scratch buffer -/

section Scratch

variable {wr : Mem} {next i : Nat} {byte : UInt8}

theorem wrSet_inside (inside : i < 21) : wrSet wr i byte = some (Function.update wr i byte) :=
  if_pos inside

theorem sizeSub_eq {a b : Nat} (small : a < 2 ^ 64) (le : b ≤ a) : sizeSub a b = a - b := by
  unfold sizeSub
  omega

/-- The digit table holds the two digits of every number below 100. -/
theorem digitsLutAt_pair : ∀ d < 100,
    digitsLutAt ((d * 2 : Nat) : Int) = some (digitByte (d / 10)) ∧
      digitsLutAt ((d * 2 : Nat) + 1 : Int) = some (digitByte (d % 10)) := by
  decide +kernel

theorem digitByte_ofInt : ∀ d < 10, UInt8.ofInt (48 + (d : Nat)) = digitByte d := by decide

/-- A buffer after two writes, read from the first of them on. -/
theorem load_pair (wr : Mem) (next : Nat) (low high : UInt8) :
    Mem.load (Function.update (Function.update wr (next + 1) low) next high) next 2 =
      [high, low] := by
  simp [Mem.load, List.range_succ, Function.update_apply]

end Scratch

/-! ### The digits -/

section Digits

variable {wr : Mem} {v next fuel : Nat}

/-- Doubling the numbers up to `v` that are below 100 stays inside the type. -/
def IntConversion.Doubles (c : IntConversion) (v : Nat) : Prop :=
  ∀ d < 100, d ≤ v → c.wrap ((d * 2 : Nat) : Int) = (d * 2 : Nat)

/-- Doubling the parts of two digits that `v` is made of stays inside the type. -/
def IntConversion.DoublesPairs (c : IntConversion) (v : Nat) : Prop :=
  ∀ k, c.wrap ((v / 100 ^ k % 100 * 2 : Nat) : Int) = (v / 100 ^ k % 100 * 2 : Nat)

theorem IntConversion.Doubles.pairs (doubles : c.Doubles v) : c.DoublesPairs v := fun k =>
  doubles _ (Nat.mod_lt _ (by norm_num)) ((Nat.mod_le _ _).trans (Nat.div_le_self v _))

/-- The last two digits. -/
theorem IntConversion.DoublesPairs.last (pairs : c.DoublesPairs v) :
    c.wrap ((v % 100 * 2 : Nat) : Int) = (v % 100 * 2 : Nat) := by
  simpa using pairs 0

/-- The others. -/
theorem IntConversion.DoublesPairs.front (pairs : c.DoublesPairs v) : c.DoublesPairs (v / 100) := by
  intro k
  have here := pairs (k + 1)
  rwa [Nat.pow_succ', ← Nat.div_div_eq_div_mul] at here

/-- What the loop leaves: at most two digits, with the others behind them in the buffer. -/
structure DigitsLeft (v next : Nat) (wr : Mem) (v' next' : Nat) (wr' : Mem) : Prop where
  small : v' < 100
  le : v' ≤ v
  down : next' ≤ next
  room : (decimal v').length ≤ next' + 1
  above : ∀ i, next < i → wr' i = wr i
  digits : decimal v = decimal v' ++ wr'.load (next' + 1) (next - next')

/-- **The loop writes the digits down to the last two.** -/
theorem digitsLoop_spec : ∀ (fuel v next : Nat) (wr : Mem), c.DoublesPairs v →
    (decimal v).length ≤ fuel → (decimal v).length ≤ next + 1 → next < 21 →
    ∃ (v' next' : Nat) (wr' : Mem), digitsLoop c fuel v next wr = some ((v' : Int), next', wr') ∧
      c.DoublesPairs v' ∧ DigitsLeft v next wr v' next' wr'
  | 0, v, next, wr, _, enough, _, _ => absurd enough (Nat.not_le.mpr decimal_length_pos)
  | fuel + 1, v, next, wr, pairs, enough, room, inside => by
    by_cases large : 100 ≤ v
    · have split := decimal_hundred large
      have lengths := congrArg List.length split
      rw [List.length_append, List.length_cons, List.length_cons, List.length_nil] at lengths
      have pos : 0 < (decimal (v / 100)).length := decimal_length_pos
      obtain ⟨low, rfl⟩ : ∃ low, next = low + 2 := ⟨next - 2, by omega⟩
      obtain ⟨tens, ones⟩ := digitsLutAt_pair (v % 100) (Nat.mod_lt v (by norm_num))
      let wr₂ := Function.update (Function.update wr (low + 2) (digitByte (v % 100 % 10))) (low + 1)
        (digitByte (v % 100 / 10))
      obtain ⟨v', next', wr', ran, pairs', left⟩ := digitsLoop_spec fuel (v / 100) low wr₂
        pairs.front (by omega) (by omega) (by omega)
      refine ⟨v', next', wr', ?_, pairs', left.small, left.le.trans (Nat.div_le_self v 100),
        left.down.trans (by omega), left.room, fun i high => ?_, ?_⟩
      · have index : c.wrap ((v : Int) % 100 * 2) = ((v % 100 * 2 : Nat) : Int) := pairs.last
        rw [digitsLoop, if_pos (by exact_mod_cast large), index]
        simp only [Option.bind_eq_bind, ones, tens, Option.bind_some, wrSet_inside inside,
          sizeSub_eq (show low + 2 < 2 ^ 64 by omega) (show 1 ≤ low + 2 by omega),
          sizeSub_eq (show low + 2 < 2 ^ 64 by omega) (show 2 ≤ low + 2 by omega)]
        rw [show low + 2 - 1 = low + 1 by omega, wrSet_inside (by omega), Option.bind_some,
          show low + 2 - 2 = low by omega]
        exact ran
      · rw [left.above i (by omega)]
        simp only [wr₂]
        rw [Function.update_of_ne (by omega), Function.update_of_ne (by omega)]
      · -- the two new digits are behind the ones of `v / 100`
        have pair : wr'.load (low + 1) 2 =
            [digitByte (v % 100 / 10), digitByte (v % 100 % 10)] := by
          rw [← load_pair wr (low + 1)]
          refine load_congr fun x above _ => ?_
          exact left.above x (by omega)
        have down := left.down
        rw [split, left.digits, List.append_assoc, ← pair,
          show low + 2 - next' = (low - next') + 2 by omega, load_append,
          show next' + 1 + (low - next') = low + 1 by omega]
    · refine ⟨v, next, wr, ?_, pairs, by omega, le_refl _, le_refl _, room, fun _ _ => rfl, ?_⟩
      · rw [digitsLoop, if_neg (by exact_mod_cast large)]
      · rw [Nat.sub_self]
        exact (List.append_nil _).symm

/-- **The tail writes the last one or two digits.** -/
theorem digitsTail_spec (wr : Mem) (pairs : c.DoublesPairs v) (small : v < 100)
    (room : (decimal v).length ≤ next + 1) (inside : next < 21) :
    ∃ next' wr', digitsTail c v next wr = some (next', wr') ∧
      next' + (decimal v).length = next + 1 ∧ (∀ i, next < i → wr' i = wr i) ∧
      wr'.load next' (decimal v).length = decimal v := by
  by_cases digit : v < 10
  · rw [decimal_digit digit]
    refine ⟨next, Function.update wr next (digitByte v), ?_, rfl, fun i above => ?_, ?_⟩
    · rw [digitsTail, if_pos (by exact_mod_cast digit), wrSet_inside inside, digitByte_ofInt v digit]
      rfl
    · exact Function.update_of_ne (by omega) _ _
    · simp [Mem.load]
  · have split : decimal v = [digitByte (v / 10), digitByte (v % 10)] := by
      rw [decimal_ten (by omega), decimal_digit (by omega)]
      rfl
    rw [split] at room ⊢
    simp only [List.length_cons, List.length_nil] at room
    obtain ⟨low, rfl⟩ : ∃ low, next = low + 1 := ⟨next - 1, by omega⟩
    obtain ⟨tens, ones⟩ := digitsLutAt_pair v small
    have index : c.wrap ((v : Int) * 2) = ((v * 2 : Nat) : Int) := by
      have last := pairs.last
      rwa [Nat.mod_eq_of_lt small] at last
    refine ⟨low, Function.update (Function.update wr (low + 1) (digitByte (v % 10))) low
      (digitByte (v / 10)), ?_, rfl, fun i above => ?_, load_pair _ _ _ _⟩
    · rw [digitsTail, if_neg (by exact_mod_cast digit), index]
      simp only [Option.bind_eq_bind, ones, tens, Option.bind_some, wrSet_inside inside,
        sizeSub_eq (show low + 1 < 2 ^ 64 by omega) (show 1 ≤ low + 1 by omega)]
      rw [Nat.add_sub_cancel, wrSet_inside (by omega), Option.bind_some]
    · rw [Function.update_of_ne (by omega), Function.update_of_ne (by omega)]

/-- Loop and tail put the digits of `v` at the end of the first `length` bytes of the buffer. -/
theorem digits_spec (wr : Mem) {length : Nat} (pairs : c.DoublesPairs v)
    (room : (decimal v).length ≤ length) (inside : length ≤ 21) :
    ∃ (v' next' : Nat) (wr' : Mem) (next : Nat) (written : Mem),
      digitsLoop c length v (length - 1) wr = some ((v' : Int), next', wr') ∧
      digitsTail c v' next' wr' = some (next, written) ∧ next + (decimal v).length = length ∧
      written.load next (decimal v).length = decimal v := by
  have pos : 0 < (decimal v).length := decimal_length_pos
  obtain ⟨v', next', wr', looped, pairs', left⟩ :=
    digitsLoop_spec length v (length - 1) wr pairs room (by omega) (by omega)
  have down := left.down
  obtain ⟨next, written, tailed, ends, above, loaded⟩ :=
    digitsTail_spec wr' pairs' left.small left.room (by omega)
  have rest : written.load (next' + 1) (length - 1 - next') =
      wr'.load (next' + 1) (length - 1 - next') := load_congr fun i low _ => above i low
  have lengths := congrArg List.length left.digits
  rw [List.length_append, load_length] at lengths
  refine ⟨v', next', wr', next, written, looped, tailed, by omega, ?_⟩
  rw [lengths, load_append, loaded, ends, rest]
  exact left.digits.symm

end Digits

/-! ### The sign -/

section Sign

variable {v : Int}

theorem decimalInt_neg (negative : v < 0) : decimalInt v = charByte '-' :: decimal v.natAbs :=
  if_pos negative

theorem decimalInt_nonneg (nonneg : ¬ v < 0) : decimalInt v = decimal v.natAbs := if_neg nonneg

theorem decimal_natAbs_length_le : (decimal v.natAbs).length ≤ (decimalInt v).length := by
  unfold decimalInt
  split
  · exact Nat.le_succ _
  · exact le_rfl

/-- **The sign goes in front of the digits.** -/
theorem signTail_spec {length next : Nat} {wr : Mem} (room : (decimalInt v).length ≤ length)
    (inside : length ≤ 21) (ends : next + (decimal v.natAbs).length = length)
    (loaded : wr.load next (decimal v.natAbs).length = decimal v.natAbs) :
    ∃ next' wr', signTail (decide (v < 0)) next wr = some (next', wr') ∧
      next' + (decimalInt v).length = length ∧
      wr'.load next' (decimalInt v).length = decimalInt v := by
  have pos : 0 < (decimal v.natAbs).length := decimal_length_pos
  by_cases negative : v < 0
  · rw [decimalInt_neg negative] at room ⊢
    rw [List.length_cons] at room ⊢
    obtain ⟨before, rfl⟩ : ∃ before, next = before + 1 := ⟨next - 1, by omega⟩
    let signed : Mem := Function.update wr before (charByte '-')
    refine ⟨before, signed, ?_, by omega, ?_⟩
    · rw [signTail, decide_eq_true negative, if_pos rfl, sizeSub_eq (by omega) (by omega),
        Nat.add_sub_cancel, wrSet_inside (by omega)]
      rfl
    · have digits : signed.load (before + 1) (decimal v.natAbs).length = decimal v.natAbs := by
        rw [← loaded, load_length]
        exact load_congr fun i low _ => Function.update_of_ne (by omega) _ _
      have sign : signed.load before 1 = [charByte '-'] := by simp [Mem.load, signed]
      rw [Nat.add_comm, load_append, sign, digits]
      rfl
  · rw [decimalInt_nonneg negative]
    refine ⟨next, wr, ?_, ends, loaded⟩
    rw [signTail, decide_eq_false negative]
    rfl

end Sign

/-! ### The whole procedure -/

/-- The type's own arithmetic handles the value: it is read and negated without overflow, its digits
index the table, and its rendering has at most the digits of the type. -/
structure IntConversion.Renders (c : IntConversion) (v : Int) : Prop where
  arg : WordRange c.argBits c.issigned v
  wrapped : c.wrap v = v
  negated : v < 0 → c.issigned = true ∧ c.negate v = some (-v)
  doubles : c.Doubles v.natAbs
  digits : (decimalInt v).length ≤ c.maxdigits
  scratch : c.maxdigits ≤ 21

/-- What the procedure makes of its argument in the scratch buffer. -/
def IntConversion.text (c : IntConversion) (arg : Int) : Option (List UInt8) := do
  let v := c.wrap arg
  let sgn := c.issigned && v < 0
  let v ← c.magnitude sgn v
  let (v, next, wr) ← digitsLoop c c.maxdigits v (c.maxdigits - 1) fun _ => 0
  let (next, wr) ← digitsTail c v next wr
  let (next, wr) ← signTail sgn next wr
  some (wr.load next (sizeSub c.maxdigits next))

section Procedure

variable {out n : Nat} {state : FmtState}

/-- A small buffer: the longest rendering is reported, and the argument is not read. -/
theorem IntConversion.toStr_short (short : n < c.maxdigits - 1) :
    c.toStr out n state = some (state, c.maxdigits) :=
  if_pos short

/-- The text goes into the buffer if it has room. -/
def putText (out n : Nat) (mem : Mem) (args : List FmtArg) (bytes : List UInt8) : FmtState × Nat :=
  if n < bytes.length then (⟨mem, args⟩, bytes.length)
  else (⟨mem.store out bytes, args⟩, bytes.length)

/-- **The procedure reads its argument and copies its text.** -/
theorem IntConversion.toStr_read {arg : Int} {args : List FmtArg} (enough : c.maxdigits - 1 ≤ n)
    (read : vaArgInt c.argBits c.issigned state.args = some (arg, args)) :
    c.toStr out n state = (c.text arg).map (putText out n state.mem args) := by
  unfold IntConversion.toStr IntConversion.text
  rw [if_neg (Nat.not_lt.mpr enough)]
  simp only [Option.bind_eq_bind, read, Option.bind_some, Option.map_bind, Function.comp_def,
    Option.map_some, putText, load_length]
  refine Option.bind_congr fun v _ => Option.bind_congr fun looped _ => Option.bind_congr fun tailed _ =>
    Option.bind_congr fun signed _ => ?_
  split <;> rfl

/-- **The text is the decimal representation**, where the type's own arithmetic handles the value. -/
theorem IntConversion.text_spec {v : Int} (wrapped : c.wrap v = v)
    (negated : v < 0 → c.issigned = true ∧ c.negate v = some (-v)) (pairs : c.DoublesPairs v.natAbs)
    (digits : (decimalInt v).length ≤ c.maxdigits) (scratch : c.maxdigits ≤ 21) :
    c.text v = some (decimalInt v) := by
  obtain ⟨v', next', wr', next, wr, looped, tailed, ends, loaded⟩ :=
    digits_spec (fun _ => 0) pairs (decimal_natAbs_length_le.trans digits) scratch
  obtain ⟨first, written, signed, ends', loaded'⟩ := signTail_spec digits scratch ends loaded
  have sgn : (c.issigned && decide (v < 0)) = decide (v < 0) := by
    by_cases negative : v < 0
    · rw [(negated negative).1, Bool.true_and]
    · rw [decide_eq_false negative, Bool.and_false]
  have magnitude : c.magnitude (decide (v < 0)) v = some (v.natAbs : Int) := by
    unfold IntConversion.magnitude
    by_cases negative : v < 0
    · rw [if_pos (decide_eq_true negative), (negated negative).2]
      congr 1
      omega
    · rw [if_neg (by simpa using negative)]
      congr 1
      omega
  have used : sizeSub c.maxdigits first = (decimalInt v).length := by
    rw [sizeSub_eq (by omega) (by omega)]
    omega
  unfold IntConversion.text
  simp only [Option.bind_eq_bind, Option.bind_some, wrapped, sgn, magnitude, looped, tailed, signed, used,
    loaded']

/-- **The procedure writes the decimal representation** if it has room, and returns its length. -/
theorem IntConversion.toStr_spec {v : Int} {mem : Mem} {rest : List FmtArg}
    (renders : c.Renders v) (enough : c.maxdigits - 1 ≤ n) (room : (decimalInt v).length ≤ n) :
    c.toStr out n ⟨mem, .word c.argBits v :: rest⟩ =
      some (⟨mem.store out (decimalInt v), rest⟩, (decimalInt v).length) := by
  obtain ⟨arg, wrapped, negated, doubles, digits, scratch⟩ := renders
  have read : vaArgInt c.argBits c.issigned (.word c.argBits v :: rest) = some (v, rest) :=
    if_pos ⟨rfl, arg⟩
  rw [IntConversion.toStr_read enough read,
    IntConversion.text_spec wrapped negated doubles.pairs digits scratch, Option.map_some, putText,
    if_neg (Nat.not_lt.mpr room)]

end Procedure

end Vaudou
