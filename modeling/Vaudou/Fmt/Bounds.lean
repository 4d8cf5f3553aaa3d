/-
**The formatter stays inside its buffer.**

The count goes on behind the end of the buffer, and a procedure is then handed a place behind the buffer
and no room. `Contained` is what every procedure keeps: it returns, and changes at most the `n` bytes that
it was given. The formatter keeps it with any table of such procedures (`vsnfmtLoop_contained`): what is
available and where the next byte goes agree, also where the count has wrapped.

* `vsnfmt_inside` — the formatter of the source, whatever its undefined steps yield.

An integer goes through a scratch buffer of 21 bytes. `toStr_contained` rests on the number of digits that
are left: of a value below `10 ^ k` there are `k`, and `k` places in front of `next`.
-/

import Vaudou.Fmt.Undefined

namespace Vaudou

open Vaudou.Memory Vaudou.Text

/-- **A contained procedure** returns, and changes at most the bytes it was given. -/
def Contained (p : FmtProcFmt) : Prop :=
  ∀ out n state, ShortSlices state.args → ∃ result, p out n state = some result ∧
    ShortSlices result.1.args ∧ ChangedWithin state.mem result.1.mem out n

/-- The names between `%{` and the next `}`, in the order in which the formatter finds them. -/
def specifierNames : (fuel : Nat) → (cf : List UInt8) → List (List UInt8)
  | _, [] => []
  | 0, _ :: _ => []
  | fuel + 1, c :: rest =>
    if c = charByte '%' ∧ rest.head? = some (charByte '\x7b') then
      match rest.tail.dropWhile (· != charByte '\x7d') with
      | [] => []
      | _ :: behind =>
        rest.tail.takeWhile (· != charByte '\x7d') :: specifierNames fuel behind
    else specifierNames fuel rest

/-- No specifier names an entry that has no procedure. -/
def Registered (lut : List FmtTable) (fmt : List UInt8) : Prop :=
  ∀ name ∈ specifierNames fmt.length fmt, ∀ entry,
    lut.find? (fun entry => entry.s == name) = some entry → entry.p.isSome = true

variable {r : UndefinedReads} {out n nwrite : Nat}

/-! ### The formatter -/

section Formatter

variable {lut : List FmtTable} {state : FmtState}

theorem available_inside {mem mem' : Mem} {start : Nat}
    (change : ChangedWithin mem mem' (start + nwrite) (available n nwrite)) :
    ChangedWithin mem mem' start n := by
  intro x outside
  unfold available at change
  split at change
  · exact change x (by omega)
  · exact change x (by omega)

theorem putByte_inside (c : UInt8) :
    ChangedWithin state.mem (putByte out n nwrite c state).mem out n := by
  unfold putByte
  split
  next inside =>
    exact (store_changedWithin state.mem (out + nwrite) [c]).widen (by omega)
      (by simp only [List.length_singleton]; omega)
  next => exact ChangedWithin.refl state.mem out n

theorem putByte_args (c : UInt8) : (putByte out n nwrite c state).args = state.args := by
  unfold putByte
  split <;> rfl

/-- **The formatter with contained procedures** is contained. -/
theorem vsnfmtLoop_contained (contained : ∀ entry ∈ lut, ∀ p, entry.p = some p → Contained p) :
    ∀ (fuel : Nat) (cf : List UInt8) (nwrite : Nat) (state : FmtState), cf.length ≤ fuel →
      (∀ name ∈ specifierNames fuel cf, ∀ entry,
        lut.find? (fun entry => entry.s == name) = some entry → entry.p.isSome = true) →
      ShortSlices state.args → ∃ result, vsnfmtLoop lut out n fuel cf nwrite state = some result ∧
        ShortSlices result.1.args ∧ ChangedWithin state.mem result.1.mem out n
  | 0, [], nwrite, state, _, _, short => ⟨_, rfl, short, ChangedWithin.refl _ _ _⟩
  | _ + 1, [], nwrite, state, _, _, short => ⟨_, rfl, short, ChangedWithin.refl _ _ _⟩
  | fuel + 1, c :: rest, nwrite, state, enough, registered, short => by
    have enough := Nat.le_of_succ_le_succ enough
    rw [specifierNames] at registered
    rw [vsnfmtLoop]
    split
    next specifier =>
      rw [if_pos specifier] at registered
      split
      next => exact ⟨_, rfl, short, ChangedWithin.refl _ _ _⟩
      next last behind closed =>
        simp only [closed] at registered
        have shorter : behind.length + 1 ≤ rest.length := by
          rw [← List.length_cons (a := last), ← closed]
          exact (List.dropWhile_sublist _).length_le.trans (List.tail_sublist rest).length_le
        split
        next => exact ⟨_, rfl, short, ChangedWithin.refl _ _ _⟩
        next entry found =>
          obtain ⟨p, proc⟩ := Option.isSome_iff_exists.mp
            (registered _ List.mem_cons_self entry found)
          obtain ⟨used, called, short', change⟩ := contained entry (List.mem_of_find?_eq_some found) p
            proc (out + nwrite) (available n nwrite) state short
          obtain ⟨result, ran, short'', rest'⟩ := vsnfmtLoop_contained contained fuel behind
            ((nwrite + used.2) % 2 ^ 64) used.1 (by omega)
            (fun name member => registered name (List.mem_cons_of_mem _ member)) short'
          refine ⟨result, ?_, short'', (available_inside change).trans rest'⟩
          simp only [proc, called, Option.bind_eq_bind, Option.bind_some]
          exact ran
    next plain =>
      rw [if_neg plain] at registered
      obtain ⟨result, ran, short', change⟩ := vsnfmtLoop_contained contained fuel rest
        ((nwrite + 1) % 2 ^ 64) (putByte out n nwrite c state) enough registered
        (by rw [putByte_args]; exact short)
      exact ⟨result, ran, short', (putByte_inside c).trans change⟩

end Formatter

/-! ### The integers -/

section Integers

variable {c : IntConversion} {spec : IntSpec}

/-- The place of the sign. -/
def IntConversion.signPlaces (c : IntConversion) : Nat := if c.issigned then 1 else 0

theorem IntSpec.signPlaces_lt (spec : IntSpec) :
    spec.conversion.signPlaces < spec.conversion.maxdigits := by
  cases spec <;> decide

/-- **A value of the type** has at most the digits that the buffer has places for. -/
theorem IntSpec.wrap_lt (spec : IntSpec) (value : Int) :
    spec.conversion.wrap value <
      10 ^ (spec.conversion.maxdigits - spec.conversion.signPlaces) := by
  have power : (2 : Int) ^ spec.conversion.bits ≤
      10 ^ (spec.conversion.maxdigits - spec.conversion.signPlaces) := by
    cases spec <;> decide +kernel
  have pos : 0 < 2 ^ spec.conversion.bits := Nat.two_pow_pos _
  have pos' : (0 : Int) < 2 ^ spec.conversion.bits := by positivity
  refine lt_of_lt_of_le ?_ power
  unfold IntConversion.wrap
  split
  · have high := Int.bmod_lt (x := value) pos
    have cast : ((2 ^ spec.conversion.bits : Nat) : Int) = 2 ^ spec.conversion.bits := by norm_num
    omega
  · exact Int.emod_lt_of_pos value pos'

theorem magnitude_lt (spec : IntSpec) (arg : Int) (sgn : Bool) :
    r.magnitude spec.conversion sgn (spec.conversion.wrap arg) <
      10 ^ (spec.conversion.maxdigits - spec.conversion.signPlaces) := by
  unfold UndefinedReads.magnitude IntConversion.magnitude IntConversion.negate
  cases sgn with
  | false => exact spec.wrap_lt arg
  | true =>
    rw [if_pos rfl]
    split
    · exact spec.wrap_lt _
    · exact spec.wrap_lt _

/-- As many places as digits are left, and one for the sign. -/
structure Places (signs : Nat) (v : Int) (next : Nat) : Prop where
  inside : next < 21
  sign : signs ≤ next
  digits : v < 10 ^ (next + 1 - signs)

/-- A number of more than `k` digits has more than `k` places. -/
theorem Places.more {signs : Nat} {v : Int} {next k : Nat} (places : Places signs v next)
    (large : 10 ^ k ≤ v) : signs + k ≤ next := by
  by_contra few
  have power : (10 : Int) ^ (next + 1 - signs) ≤ 10 ^ k :=
    pow_le_pow_right₀ (by norm_num) (by omega)
  have digits := places.digits
  omega

/-- **The loop keeps the places.** -/
theorem digitsLoop_places {signs : Nat} : ∀ (fuel : Nat) (v : Int) (next : Nat) (wr : Mem),
    next < fuel → Places signs v next → ∃ v' next' wr', r.digitsLoop c fuel v next wr =
      some (v', next', wr') ∧ next' ≤ next ∧ Places signs v' next'
  | fuel + 1, v, next, wr, enough, places => by
    rw [UndefinedReads.digitsLoop]
    split
    next large =>
      have more : signs + 2 ≤ next := places.more (by norm_num; exact large)
      have inside := places.inside
      obtain ⟨low, rfl⟩ : ∃ low, next = low + 2 := ⟨next - 2, by omega⟩
      have divided : Places signs (v / 100) low := by
        refine ⟨by omega, by omega, Int.ediv_lt_of_lt_mul (by norm_num) ?_⟩
        have power : (10 : Int) ^ (low + 2 + 1 - signs) = 10 ^ (low + 1 - signs) * 100 := by
          rw [show low + 2 + 1 - signs = low + 1 - signs + 2 by omega, pow_add]
          norm_num
        rw [← power]
        exact places.digits
      have before : sizeSub (low + 2) 1 = low + 1 := sizeSub_eq (by omega) (by omega)
      have front : sizeSub (low + 2) 2 = low := sizeSub_eq (by omega) (by omega)
      rw [before, front]
      simp only [wrSet_inside inside, wrSet_inside (show low + 1 < 21 by omega), Option.bind_eq_bind,
        Option.bind_some]
      obtain ⟨v', next', wr', ran, down, places'⟩ :=
        digitsLoop_places fuel (v / 100) low _ (by omega) divided
      exact ⟨v', next', wr', ran, by omega, places'⟩
    next => exact ⟨v, next, wr, rfl, le_rfl, places⟩

theorem digitsTail_places {signs : Nat} {v : Int} {next : Nat} (wr : Mem)
    (places : Places signs v next) : ∃ next' wr', r.digitsTail c v next wr = some (next', wr') ∧
      signs ≤ next' ∧ next' ≤ next := by
  unfold UndefinedReads.digitsTail
  have inside := places.inside
  split
  next digit => exact ⟨next, _, by rw [wrSet_inside inside]; rfl, places.sign, le_rfl⟩
  next two =>
    have more : signs + 1 ≤ next := places.more (by omega)
    have before : sizeSub next 1 = next - 1 := sizeSub_eq (by omega) (by omega)
    rw [before]
    simp only [wrSet_inside inside, wrSet_inside (show next - 1 < 21 by omega), Option.bind_eq_bind,
      Option.bind_some]
    exact ⟨next - 1, _, rfl, by omega, by omega⟩

/-- The sign takes the last place. -/
theorem signTail_places {signs next : Nat} {sgn : Bool} (wr : Mem) (signed : sgn = true → signs = 1)
    (sign : signs ≤ next) (inside : next < 21) :
    ∃ next' wr', signTail sgn next wr = some (next', wr') ∧ next' ≤ next := by
  unfold signTail
  cases negative : sgn with
  | false => exact ⟨next, wr, rfl, le_rfl⟩
  | true =>
    have one := signed negative
    have before : sizeSub next 1 = next - 1 := sizeSub_eq (by omega) (by omega)
    rw [before, wrSet_inside (by omega)]
    exact ⟨next - 1, _, rfl, by omega⟩

/-- **The text of an integer** stays inside the scratch buffer, and is not empty. -/
theorem text_contained (r : UndefinedReads) (spec : IntSpec) (arg : Int) :
    ∃ bytes, r.text spec.conversion arg = some bytes ∧ bytes ≠ [] := by
  have scratch := spec.scratch
  have sign := spec.signPlaces_lt
  let sgn := spec.conversion.issigned && decide (spec.conversion.wrap arg < 0)
  have places : Places spec.conversion.signPlaces
      (r.magnitude spec.conversion sgn (spec.conversion.wrap arg))
      (spec.conversion.maxdigits - 1) := by
    refine ⟨by omega, by omega, ?_⟩
    rw [Nat.sub_add_cancel (by omega)]
    exact magnitude_lt spec arg sgn
  obtain ⟨v', next', wr', looped, down, places'⟩ := digitsLoop_places (r := r)
    (c := spec.conversion) spec.conversion.maxdigits _ _ (fun _ => 0) (by omega) places
  obtain ⟨next, wr, tailed, signs, down'⟩ := digitsTail_places (r := r)
    (c := spec.conversion) wr' places'
  obtain ⟨first, written, wrote, down''⟩ := signTail_places wr
    (fun negative : sgn = true => if_pos (Bool.and_eq_true_iff.mp negative).1) signs (by omega)
  refine ⟨written.load first (sizeSub spec.conversion.maxdigits first), ?_, ?_⟩
  · unfold UndefinedReads.text
    simp only [sgn] at looped wrote
    simp only [looped, tailed, wrote, Option.bind_eq_bind, Option.bind_some]
  · rw [sizeSub_eq (by omega) (by omega), ← List.length_pos_iff, load_length]
    omega

end Integers

/-! ### The procedures -/

section Procedures

variable {printed : Nat → List UInt8} {args : List FmtArg} {mem : Mem}

theorem ShortSlices.tail {arg : FmtArg} (short : ShortSlices (arg :: args)) : ShortSlices args :=
  fun bits data len member => short bits data len (List.mem_cons_of_mem arg member)

theorem vaArgInt_short (bits : Nat) (issigned : Bool) (short : ShortSlices args) :
    ShortSlices (r.vaArgInt bits issigned args).2 := by
  unfold UndefinedReads.vaArgInt vaArgInt
  split
  · split
    · exact short.tail
    · exact r.left_short _ short
  · exact r.left_short _ short

theorem vaArgSlice_short (bits : Nat) (short : ShortSlices args) :
    (r.vaArgSlice bits args).1.2 < 2 ^ 31 ∧ ShortSlices (r.vaArgSlice bits args).2 := by
  unfold UndefinedReads.vaArgSlice vaArgSlice
  split
  · split
    · exact ⟨short _ _ _ List.mem_cons_self, short.tail⟩
    · exact ⟨r.slice_short _, r.left_short _ short⟩
  · exact ⟨r.slice_short _, r.left_short _ short⟩

theorem vaArgPointer_short (short : ShortSlices args) : ShortSlices (r.vaArgPointer args).2 := by
  unfold UndefinedReads.vaArgPointer vaArgPointer
  split
  · exact short.tail
  · exact r.left_short _ short

theorem vaArgDouble_short (short : ShortSlices args) : ShortSlices (r.vaArgDouble args).2 := by
  unfold UndefinedReads.vaArgDouble vaArgDouble
  split
  · exact short.tail
  · exact r.left_short _ short

theorem putText_inside (bytes : List UInt8) :
    ChangedWithin mem (putText out n mem args bytes).1.mem out n := by
  unfold putText
  split
  · exact ChangedWithin.refl mem out n
  · exact (store_changedWithin mem out bytes).widen le_rfl (by omega)

theorem putText_args (bytes : List UInt8) : (putText out n mem args bytes).1.args = args := by
  unfold putText
  split <;> rfl

/-- **An integer procedure** is contained. -/
theorem toStr_contained (r : UndefinedReads) (spec : IntSpec) : Contained (r.toStr spec.conversion) := by
  intro out n state short
  unfold UndefinedReads.toStr
  split
  · exact ⟨_, rfl, short, ChangedWithin.refl _ _ _⟩
  · obtain ⟨bytes, text, -⟩ := text_contained r spec
      (r.vaArgInt spec.conversion.argBits spec.conversion.issigned state.args).1
    refine ⟨putText out n state.mem (r.vaArgInt spec.conversion.argBits spec.conversion.issigned
      state.args).2 bytes, ?_, ?_, putText_inside bytes⟩
    · simp only [text, Option.map_some]
    · rw [putText_args]
      exact vaArgInt_short _ _ short

theorem copyString_inside (data len : Nat) :
    ChangedWithin mem (copyString out n data len ⟨mem, args⟩).1.mem out n := by
  unfold copyString
  split
  · exact ChangedWithin.refl mem out n
  · refine (store_changedWithin mem out (mem.load data len)).widen le_rfl ?_
    rw [load_length]
    omega

theorem copyString_args (data len : Nat) :
    (copyString out n data len ⟨mem, args⟩).1.args = args := by
  unfold copyString
  split <;> rfl

theorem stringSliceToStr_contained (bits : Nat) : Contained (r.stringSliceToStr bits) := by
  intro out n state short
  refine ⟨_, rfl, ?_, copyString_inside _ _⟩
  rw [copyString_args]
  exact (vaArgSlice_short bits short).2

theorem fmtCstr_contained : Contained r.fmtCstr := by
  intro out n state short
  refine ⟨_, rfl, ?_, copyString_inside _ _⟩
  rw [copyString_args]
  exact vaArgPointer_short short

/-- The path loop writes one byte a round. -/
theorem pathLoop_inside (out data : Nat) : ∀ (rounds i : Nat) (mem : Mem), i + rounds < 2 ^ 31 →
    ∃ mem', pathLoop out data rounds i mem = some mem' ∧ ChangedWithin mem mem' (out + i) rounds
  | 0, i, mem, _ => ⟨mem, rfl, ChangedWithin.refl mem _ _⟩
  | rounds + 1, i, mem, small => by
    have change := store_changedWithin mem (out + i) [slashed (mem (data + i))]
    rw [List.length_singleton] at change
    obtain ⟨mem', ran, later⟩ := pathLoop_inside out data rounds (i + 1)
      (mem.store (out + i) [slashed (mem (data + i))]) (by omega)
    refine ⟨mem', ?_, (change.widen le_rfl (by omega)).trans (later.widen (by omega) (by omega))⟩
    rw [pathLoop, if_pos (by omega)]
    exact ran

/-- **The path procedure** is contained: no index of a slice of less than `2 ^ 31` bytes overflows. -/
theorem pathu32ToStr_contained : Contained r.pathu32ToStr := by
  intro out n state short
  obtain ⟨small, short'⟩ := vaArgSlice_short (r := r) 32 short
  unfold UndefinedReads.pathu32ToStr
  generalize r.vaArgSlice 32 state.args = value at small short'
  obtain ⟨⟨data, len⟩, args⟩ := value
  have small : len < 2 ^ 31 := small
  by_cases room : n < len
  · exact ⟨_, if_pos room, short', ChangedWithin.refl _ _ _⟩
  · obtain ⟨mem', ran, change⟩ := pathLoop_inside out data len 0 state.mem (by omega)
    refine ⟨(⟨mem', args⟩, len), ?_, short', change.widen (by omega) (by omega)⟩
    simp only [if_neg room, ran, Option.map_some]

theorem nullToStr_contained : Contained nullToStr := by
  intro out n state short
  by_cases room : n < 1
  · exact ⟨_, if_pos room, short, ChangedWithin.refl _ _ _⟩
  · refine ⟨_, if_neg room, short, (store_changedWithin state.mem out [0]).widen le_rfl ?_⟩
    rw [List.length_singleton]
    omega

/-- `snprintf` respects its size. -/
theorem printDouble_inside (bits : Nat) :
    ChangedWithin mem (UndefinedReads.printDouble printed bits out n mem args).1.mem out n := by
  unfold UndefinedReads.printDouble
  dsimp only
  split
  · exact ChangedWithin.refl mem out n
  · refine (store_changedWithin mem out _).widen le_rfl ?_
    rw [List.length_append, List.length_take, List.length_singleton]
    omega

theorem f32ToStr_contained : Contained (r.f32ToStr printed) := fun _ _ _ short =>
  ⟨_, rfl, r.left_short _ short, printDouble_inside _⟩

theorem f64ToStr_contained : Contained (r.f64ToStr printed) := fun _ _ _ short =>
  ⟨_, rfl, vaArgDouble_short short, printDouble_inside _⟩

variable (r printed) in
/-- **Every procedure of the table** is contained. -/
theorem resolved_contained : ∀ entry ∈ (FmtProcs.resolved r printed).lut, ∀ p, entry.p = some p →
    Contained p := by
  have ints := toStr_contained r
  simp only [FmtProcs.lut, FmtProcs.resolved, List.forall_mem_cons, List.not_mem_nil, Option.some.injEq,
    forall_eq', reduceCtorEq, IsEmpty.forall_iff, implies_true, and_true, true_and]
  exact ⟨ints .i8, ints .i16, ints .i32, ints .i64, ints .u8, ints .u16, ints .u32, ints .u64,
    f32ToStr_contained, f64ToStr_contained, stringSliceToStr_contained 32, stringSliceToStr_contained 64,
    fmtCstr_contained, pathu32ToStr_contained, nullToStr_contained⟩

end Procedures

/-! ### The default table -/

section Default

variable {lut lut' : List FmtTable} {fmt : List UInt8}

/-- A format is registered with a table and with one that refines it. -/
theorem Registered.refines (refines : List.Forall₂ EntryRefines lut lut')
    (registered : Registered lut fmt) : Registered lut' fmt := by
  intro name member entry' found'
  have found := find_refines name refines
  rw [found'] at found
  generalize here : lut.find? (fun entry => entry.s == name) = known at found
  cases found with
  | some same => rw [← rel_isSome same.2, registered name member _ here]

/-- **Formatting never writes past its buffer.** Whatever the undefined steps yield, the formatter returns
and has changed nothing outside the `n` bytes at `out`; a run without an undefined step is that run. -/
theorem vsnfmt_inside (r : UndefinedReads) (printed : Nat → List UInt8) (out n : Nat)
    (fmt : List UInt8) (state : FmtState) (registered : Registered (fmtDefLut printed) fmt)
    (short : ShortSlices state.args) :
    ∃ result, vsnfmt (FmtProcs.resolved r printed).lut out n fmt state = some result ∧
      ChangedWithin state.mem result.1.mem out n ∧
      ∀ result', vsnfmt (fmtDefLut printed) out n fmt state = some result' → result' = result := by
  obtain ⟨result, ran, -, change⟩ := vsnfmtLoop_contained (resolved_contained r printed) fmt.length fmt 0
    state le_rfl (registered.refines (fmtDefLut_resolved r printed)) short
  refine ⟨result, ran, change, fun result' defined => ?_⟩
  exact Option.some.inj ((vsnfmt_resolved r defined).symm.trans ran)

/-- Undefined steps that yield zeros. -/
def zeroReads : UndefinedReads where
  int _ := 0
  slice _ := (0, 0)
  pointer _ := 0
  double _ := 0
  left args := args.tail
  negation _ := 0
  beside _ := 0
  endless _ _ := 0
  slice_short _ := by norm_num
  left_short args short bits data len member := short bits data len (List.mem_of_mem_tail member)

/-- An integer and a C string, in 3 bytes: the integer is not read, and is taken for the string. -/
theorem vsnfmt_inside_unread :
    ∃ result, vsnfmt (FmtProcs.resolved zeroReads fun _ => []).lut 100 3
        (specifier (ascii "i32") ++ specifier (ascii "cstr"))
        ⟨fun _ => 0, [.word 32 7, .pointer 300]⟩ = some result ∧
      ChangedWithin (fun _ => 0) result.1.mem 100 3 ∧
      ∀ result', vsnfmt (fmtDefLut fun _ => []) 100 3
        (specifier (ascii "i32") ++ specifier (ascii "cstr"))
        ⟨fun _ => 0, [.word 32 7, .pointer 300]⟩ = some result' → result' = result := by
  refine vsnfmt_inside zeroReads (fun _ => []) 100 3 _ ⟨fun _ => 0, _⟩ ?_ ?_
  · intro name member entry found
    have names : specifierNames (specifier (ascii "i32") ++ specifier (ascii "cstr")).length
        (specifier (ascii "i32") ++ specifier (ascii "cstr")) = [ascii "i32", ascii "cstr"] := by
      decide +kernel
    rw [names] at member
    rcases List.mem_pair.mp member with rfl | rfl
    · obtain rfl := Option.some.inj ((fmtDefLut_int _ .i32).symm.trans found)
      rfl
    · obtain rfl := Option.some.inj ((fmtDefLut_str _ .cstr).symm.trans found)
      rfl
  · intro bits data len member
    simp at member

end Default

end Vaudou
