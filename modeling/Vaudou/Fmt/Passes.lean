/-
**The two passes of `vd_snfmt`.**

The measuring pass is defined exactly on the lists where no string specifier stands behind an integer
specifier (`measureItems`, `measureItems_none`), and it counts `itemsMeasure`. The writing pass, with
that much room, writes the rendering, unless a path is too long for the loop's index (`writeItems`,
`writeItems_long`).
-/

import Vaudou.Fmt.Strings

namespace Vaudou

open Vaudou.Memory Vaudou.Text

variable {printed : Nat → List UInt8} {mem : Mem} {low high out n nwrite : Nat}
  {rest : List UInt8} {state : FmtState} {item : FmtItem} {items : List FmtItem}

/-! ### The measuring pass -/

section Measuring

theorem available_zero : available 0 nwrite = 0 := by
  unfold available
  split <;> omega

theorem putByte_zero {c : UInt8} : putByte out 0 nwrite c state = state :=
  if_neg (Nat.not_lt_zero nwrite)

theorem measure_text : ∀ {bytes : List UInt8} {nwrite : Nat}, (∀ c ∈ bytes, c ≠ charByte '%') →
    nwrite < 2 ^ 64 →
      formatFrom (fmtDefLut printed) 0 0 (bytes ++ rest) nwrite state =
        formatFrom (fmtDefLut printed) 0 0 rest ((nwrite + bytes.length) % 2 ^ 64) state
  | [], nwrite, _, small => by
    rw [List.length_nil, Nat.add_zero, Nat.mod_eq_of_lt small]
    rfl
  | c :: bytes, nwrite, plain, _ => by
    rw [List.cons_append, formatFrom_byte (plain c List.mem_cons_self), putByte_zero,
      measure_text (fun d member => plain d (List.mem_cons_of_mem c member))
        (Nat.mod_lt _ (by norm_num)), Nat.mod_add_mod, List.length_cons]
    congr 2
    omega

theorem measure_specifier {name : List UInt8} {p : FmtProcFmt} {state' : FmtState} {used : Nat}
    (closed : ∀ c ∈ name, c ≠ charByte '\x7d')
    (found : (fmtDefLut printed).find? (fun entry => entry.s == name) = some ⟨name, some p⟩)
    (ran : p (0 + nwrite) 0 state = some (state', used)) :
    formatFrom (fmtDefLut printed) 0 0 (specifier name ++ rest) nwrite state =
      formatFrom (fmtDefLut printed) 0 0 rest ((nwrite + used) % 2 ^ 64) state' := by
  exact formatFrom_ran closed found (by rw [available_zero, ran])

/-- Without a buffer an integer procedure leaves its argument. -/
theorem IntSpec.toStr_measure (spec : IntSpec) :
    spec.conversion.toStr out 0 state = some (state, spec.conversion.maxdigits) :=
  IntConversion.toStr_short (by cases spec <;> decide)

/-- **An item that is no string** leaves the arguments. -/
theorem measure_strless (matching : item.Matches mem low high) (strless : item.isStr = false)
    (small : nwrite < 2 ^ 64) :
    formatFrom (fmtDefLut printed) 0 0 (item.format ++ rest) nwrite state =
      formatFrom (fmtDefLut printed) 0 0 rest ((nwrite + item.measure) % 2 ^ 64) state := by
  cases item with
  | text bytes => exact measure_text (fun c member => (matching c member).1) small
  | int spec v =>
    exact measure_specifier spec.name_closed (fmtDefLut_int printed spec) spec.toStr_measure
  | str spec data content => cases strless
  | null => exact measure_specifier null_closed (fmtDefLut_null printed) rfl

/-- **A string** reads its argument. -/
theorem measure_str {spec : StrSpec} {data : Nat} {content : List UInt8} {args : List FmtArg}
    (holds : spec.Holds mem data content) :
    formatFrom (fmtDefLut printed) 0 0 ((FmtItem.str spec data content).format ++ rest) nwrite
        ⟨mem, (FmtItem.str spec data content).args ++ args⟩ =
      formatFrom (fmtDefLut printed) 0 0 rest
        ((nwrite + (FmtItem.str spec data content).measure) % 2 ^ 64) ⟨mem, args⟩ :=
  measure_specifier spec.name_closed (fmtDefLut_str printed spec) (StrSpec.proc_measure holds)

theorem FmtItem.eq_int (integer : item.isInt = true) : ∃ spec v, item = .int spec v := by
  cases item with
  | int spec v => exact ⟨spec, v, rfl⟩
  | _ => cases integer

/-- An item that is no integer reads its own arguments. -/
theorem measure_intless {args : List FmtArg} (matching : item.Matches mem low high)
    (intless : item.isInt = false) (small : nwrite < 2 ^ 64) :
    formatFrom (fmtDefLut printed) 0 0 (item.format ++ rest) nwrite ⟨mem, item.args ++ args⟩ =
      formatFrom (fmtDefLut printed) 0 0 rest ((nwrite + item.measure) % 2 ^ 64) ⟨mem, args⟩ := by
  cases item with
  | int => cases intless
  | str spec data content => exact measure_str matching.1
  | text bytes => exact measure_strless matching rfl small
  | null => exact measure_strless matching rfl small

/-- Items that are no strings are counted whatever the arguments are. -/
theorem measureItems_strless : ∀ {items : List FmtItem} {nwrite : Nat},
    (∀ item ∈ items, item.Matches mem low high) → (∀ item ∈ items, item.isStr = false) →
      nwrite < 2 ^ 64 → formatFrom (fmtDefLut printed) 0 0 (itemsFormat items) nwrite state =
        some (state, (nwrite + itemsMeasure items) % 2 ^ 64)
  | [], nwrite, _, _, small => by
    rw [itemsMeasure, List.map_nil, List.sum_nil, Nat.add_zero, Nat.mod_eq_of_lt small]
    rfl
  | item :: items, nwrite, matching, strless, small => by
    rw [itemsFormat_cons, measure_strless (matching item List.mem_cons_self)
      (strless item List.mem_cons_self) small]
    refine (measureItems_strless (fun item member => matching item (List.mem_cons_of_mem _ member))
      (fun item member => strless item (List.mem_cons_of_mem _ member))
      (Nat.mod_lt _ (by norm_num))).trans ?_
    rw [Nat.mod_add_mod, itemsMeasure_cons, Nat.add_assoc]

variable (printed) in
/-- **The measuring pass**, where no string stands behind an integer. -/
theorem measureItems : ∀ {items : List FmtItem} (nwrite : Nat),
    (∀ item ∈ items, item.Matches mem low high) →
    items.Pairwise (fun first second => first.isInt = true → second.isStr = false) →
      nwrite < 2 ^ 64 → ∃ args, formatFrom (fmtDefLut printed) 0 0 (itemsFormat items) nwrite
        ⟨mem, itemsArgs items⟩ = some (⟨mem, args⟩, (nwrite + itemsMeasure items) % 2 ^ 64)
  | [], nwrite, _, _, small => ⟨[], by
    rw [itemsMeasure, List.map_nil, List.sum_nil, Nat.add_zero, Nat.mod_eq_of_lt small]
    rfl⟩
  | item :: items, nwrite, matching, ordered, small => by
    obtain ⟨here, later⟩ := List.pairwise_cons.mp ordered
    have matches' : ∀ item ∈ items, item.Matches mem low high := fun item member =>
      matching item (List.mem_cons_of_mem _ member)
    have total : ((nwrite + item.measure) % 2 ^ 64 + itemsMeasure items) % 2 ^ 64 =
        (nwrite + itemsMeasure (item :: items)) % 2 ^ 64 := by
      rw [Nat.mod_add_mod, itemsMeasure_cons, Nat.add_assoc]
    rw [← total, itemsFormat_cons, itemsArgs_cons]
    cases integer : item.isInt with
    | true =>
      -- from here on no argument is read
      obtain ⟨spec, v, rfl⟩ := FmtItem.eq_int integer
      rw [measure_strless (matching _ List.mem_cons_self) rfl small]
      exact ⟨_, measureItems_strless matches' (fun item member => here item member rfl)
        (Nat.mod_lt _ (by norm_num))⟩
    | false =>
      obtain ⟨args, ran⟩ := measureItems ((nwrite + item.measure) % 2 ^ 64) matches' later
        (Nat.mod_lt _ (by norm_num))
      refine ⟨args, Eq.trans ?_ ran⟩
      exact measure_intless (matching _ List.mem_cons_self) integer small

/-- A string that finds an integer is undefined. -/
theorem measureItems_stuck {bits : Nat} {v : Int} {args : List FmtArg} :
    ∀ {items : List FmtItem} {nwrite : Nat}, (∀ item ∈ items, item.Matches mem low high) →
      (∃ item ∈ items, item.isStr = true) → nwrite < 2 ^ 64 →
        formatFrom (fmtDefLut printed) 0 0 (itemsFormat items) nwrite ⟨mem, .word bits v :: args⟩ =
          none
  | item :: items, nwrite, matching, found, small => by
    rw [itemsFormat_cons]
    cases string : item.isStr with
    | true =>
      cases item with
      | str spec data content =>
        refine (formatFrom_specifier spec.name_closed (fmtDefLut_str printed spec)).trans ?_
        rw [spec.proc_word]
        rfl
      | _ => cases string
    | false =>
      rw [measure_strless (matching item List.mem_cons_self) string small]
      obtain ⟨later, member, isStr⟩ := found
      refine measureItems_stuck (fun item member => matching item (List.mem_cons_of_mem _ member))
        ⟨later, (List.mem_cons.mp member).resolve_left ?_, isStr⟩ (Nat.mod_lt _ (by norm_num))
      rintro rfl
      rw [string] at isStr
      cases isStr

/-- **A string behind an integer** makes the measuring pass undefined. -/
theorem measureItems_none : ∀ {items : List FmtItem} (nwrite : Nat),
    (∀ item ∈ items, item.Matches mem low high) →
    ¬ items.Pairwise (fun first second => first.isInt = true → second.isStr = false) →
      nwrite < 2 ^ 64 → formatFrom (fmtDefLut printed) 0 0 (itemsFormat items) nwrite
        ⟨mem, itemsArgs items⟩ = none
  | [], _, _, disordered, _ => absurd List.Pairwise.nil disordered
  | item :: items, nwrite, matching, disordered, small => by
    have matches' : ∀ item ∈ items, item.Matches mem low high := fun item member =>
      matching item (List.mem_cons_of_mem _ member)
    rw [List.pairwise_cons, not_and_or] at disordered
    rw [itemsFormat_cons, itemsArgs_cons]
    cases integer : item.isInt with
    | true =>
      obtain ⟨spec, v, rfl⟩ := FmtItem.eq_int integer
      rw [measure_strless (matching _ List.mem_cons_self) rfl small]
      refine measureItems_stuck matches' ?_ (Nat.mod_lt _ (by norm_num))
      by_contra strless
      simp only [not_exists, not_and, Bool.not_eq_true] at strless
      refine disordered.elim (fun here => here fun later member _ => strless later member)
        fun later => later ?_
      exact List.pairwise_of_forall_mem_list fun _ _ second member _ => strless second member
    | false =>
      have later := disordered.resolve_left fun here => here fun second _ isInt =>
        absurd (integer.symm.trans isInt) Bool.false_ne_true
      refine Eq.trans ?_ (measureItems_none ((nwrite + item.measure) % 2 ^ 64) matches'
        later (Nat.mod_lt _ (by norm_num)))
      exact measure_intless (matching _ List.mem_cons_self) integer small

end Measuring

/-! ### The writing pass -/

section Writing

variable {args : List FmtArg}

theorem write_text : ∀ {bytes : List UInt8} {nwrite : Nat} {mem : Mem},
    (∀ c ∈ bytes, c ≠ charByte '%') → nwrite + bytes.length ≤ n → n < 2 ^ 64 →
      formatFrom (fmtDefLut printed) out n (bytes ++ rest) nwrite ⟨mem, args⟩ =
        formatFrom (fmtDefLut printed) out n rest (nwrite + bytes.length)
          ⟨mem.store (out + nwrite) bytes, args⟩
  | [], nwrite, mem, _, _, _ => by
    rw [store_nil]
    rfl
  | c :: bytes, nwrite, mem, plain, room, word => by
    rw [List.length_cons] at room
    have put : putByte out n nwrite c ⟨mem, args⟩ = ⟨mem.store (out + nwrite) [c], args⟩ :=
      if_pos (by omega)
    have both := store_append mem (out + nwrite) [c] bytes
    rw [List.singleton_append, List.length_singleton, Nat.add_assoc] at both
    rw [List.cons_append, formatFrom_byte (plain c List.mem_cons_self), put,
      Nat.mod_eq_of_lt (by omega),
      write_text (fun d member => plain d (List.mem_cons_of_mem c member)) (by omega) word, both,
      List.length_cons, Nat.add_assoc, Nat.add_comm 1]

theorem write_specifier {name bytes : List UInt8} {p : FmtProcFmt}
    (closed : ∀ c ∈ name, c ≠ charByte '\x7d')
    (found : (fmtDefLut printed).find? (fun entry => entry.s == name) = some ⟨name, some p⟩)
    (room : nwrite + bytes.length ≤ n) (word : n < 2 ^ 64)
    (ran : p (out + nwrite) (n - nwrite) state =
      some (⟨mem.store (out + nwrite) bytes, args⟩, bytes.length)) :
    formatFrom (fmtDefLut printed) out n (specifier name ++ rest) nwrite state =
      formatFrom (fmtDefLut printed) out n rest (nwrite + bytes.length)
        ⟨mem.store (out + nwrite) bytes, args⟩ := by
  have left : available n nwrite = n - nwrite := if_neg (by omega)
  rw [formatFrom_ran closed found (by rw [left, ran]), Nat.mod_eq_of_lt (by omega)]

/-- A rendering takes at most what the measuring pass counts. -/
theorem rendering_le_measure (matching : item.Matches mem low high) :
    item.rendering.length ≤ item.measure := by
  cases item with
  | text bytes => exact le_rfl
  | int spec v => exact (IntSpec.Admits.renders matching).digits
  | str spec data content => exact spec.rendering_length.le
  | null => exact le_rfl

/-- **An item with room is written.** -/
theorem write_item (matching : item.Matches mem out (out + n)) (short : item.Short)
    (room : nwrite + item.measure ≤ n) (word : n < 2 ^ 64) :
    formatFrom (fmtDefLut printed) out n (item.format ++ rest) nwrite ⟨mem, item.args ++ args⟩ =
      formatFrom (fmtDefLut printed) out n rest (nwrite + item.rendering.length)
        ⟨mem.store (out + nwrite) item.rendering, args⟩ := by
  have fits := Nat.add_le_add_left (rendering_le_measure matching) nwrite
  cases item with
  | text bytes => exact write_text (fun c member => (matching c member).1) room word
  | int spec v =>
    have renders := IntSpec.Admits.renders matching
    have enough : spec.conversion.maxdigits ≤ n - nwrite := Nat.le_sub_of_add_le' room
    exact write_specifier spec.name_closed (fmtDefLut_int printed spec) (fits.trans room) word
      (IntConversion.toStr_spec renders ((Nat.sub_le _ 1).trans enough)
        (renders.digits.trans enough))
  | str spec data content =>
    obtain ⟨holds, apart⟩ := matching
    have room' : nwrite + content.length ≤ n := room
    have extent := spec.length_le_extent content
    refine write_specifier spec.name_closed (fmtDefLut_str printed spec) (fits.trans room) word ?_
    refine (StrSpec.proc_write holds (by omega) (by omega) short).trans ?_
    show _ = some (_, (spec.rendering content).length)
    rw [spec.rendering_length]
    rfl
  | null =>
    have one : nwrite + 1 ≤ n := room
    refine write_specifier null_closed (fmtDefLut_null printed) room word ?_
    exact if_neg (by omega)

/-- A change among the addresses for the result leaves what the items need. -/
theorem FmtItem.Matches.narrow {mem' : Mem} {p k : Nat} (matching : item.Matches mem low high)
    (change : ChangedWithin mem mem' p k) (above : low ≤ p) (below : p + k ≤ high) :
    item.Matches mem' p (p + k) := by
  cases item with
  | str spec data content =>
    obtain ⟨holds, apart⟩ := matching
    exact ⟨holds.congr (change.same (by omega)), by omega⟩
  | _ => exact matching

theorem FmtItem.Matches.store {bytes : List UInt8} (matching : item.Matches mem out (out + n))
    (room : nwrite + bytes.length ≤ n) :
    item.Matches (mem.store (out + nwrite) bytes) out (out + n) :=
  matching.narrow ((store_changedWithin mem (out + nwrite) bytes).widen (by omega) (by omega)) le_rfl
    le_rfl

/-- **The writing pass**, where no path is too long. -/
theorem writeItems (word : n < 2 ^ 64) : ∀ {items : List FmtItem} {nwrite : Nat} {mem : Mem},
    (∀ item ∈ items, item.Matches mem out (out + n)) → (∀ item ∈ items, item.Short) →
      nwrite + itemsMeasure items ≤ n →
        formatFrom (fmtDefLut printed) out n (itemsFormat items) nwrite ⟨mem, itemsArgs items⟩ =
          some (⟨mem.store (out + nwrite) (itemsRendering items), []⟩,
            nwrite + (itemsRendering items).length)
  | [], nwrite, mem, _, _, _ => by
    show formatFrom _ _ _ [] _ _ = some (⟨mem.store _ [], []⟩, _)
    rw [store_nil]
    rfl
  | item :: items, nwrite, mem, matching, short, room => by
    rw [itemsMeasure_cons] at room
    have here := matching item List.mem_cons_self
    have fits := rendering_le_measure here
    have later : ∀ other ∈ items, other.Matches (mem.store (out + nwrite) item.rendering) out
        (out + n) := fun other member =>
      (matching other (List.mem_cons_of_mem item member)).store (by omega)
    rw [itemsFormat_cons, itemsArgs_cons, write_item here (short item List.mem_cons_self) (by omega)
      word, writeItems word later (fun other member => short other (List.mem_cons_of_mem item member))
      (by omega), itemsRendering_cons, store_append, List.length_append, Nat.add_assoc,
      Nat.add_assoc]

/-- **A path that is too long** makes the writing pass undefined. -/
theorem writeItems_long (word : n < 2 ^ 64) : ∀ {items : List FmtItem} {nwrite : Nat} {mem : Mem},
    (∀ item ∈ items, item.Matches mem out (out + n)) → (∃ item ∈ items, ¬ item.Short) →
      nwrite + itemsMeasure items ≤ n →
        formatFrom (fmtDefLut printed) out n (itemsFormat items) nwrite ⟨mem, itemsArgs items⟩ =
          none
  | item :: items, nwrite, mem, matching, long, room => by
    rw [itemsMeasure_cons] at room
    have here := matching item List.mem_cons_self
    rw [itemsFormat_cons, itemsArgs_cons]
    by_cases short : item.Short
    · have fits := rendering_le_measure here
      have later : ∀ other ∈ items, other.Matches (mem.store (out + nwrite) item.rendering) out
          (out + n) := fun other member =>
        (matching other (List.mem_cons_of_mem item member)).store (by omega)
      obtain ⟨other, member, tooLong⟩ := long
      have inRest := (List.mem_cons.mp member).resolve_left fun same => tooLong (same ▸ short)
      rw [write_item here short (by omega) word]
      exact writeItems_long word later ⟨other, inRest, tooLong⟩ (by omega)
    · cases item with
      | str spec data content =>
        have room' : content.length ≤ n - nwrite := by
          have : content.length + itemsMeasure items ≤ n - nwrite := Nat.le_sub_of_add_le' room
          omega
        have left : available n nwrite = n - nwrite := if_neg (by omega)
        refine (formatFrom_specifier spec.name_closed (fmtDefLut_str printed spec)).trans ?_
        rw [left]
        have undefined : spec.proc (out + nwrite) (n - nwrite)
            ⟨mem, spec.arg data content.length :: itemsArgs items⟩ = none :=
          StrSpec.proc_long room' short
        exact congrArg (Option.bind · _) undefined
      | _ => exact absurd trivial short

end Writing

end Vaudou
