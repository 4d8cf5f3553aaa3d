/-
**Printing through a buffer of 4096 bytes.**

`vd_fmt_vfprintf` formats into a local buffer and hands the returned length to `fwrite`. That length is
what the rendering needs, or what a procedure without room reports, and not what was written: behind 4096
bytes `fwrite` reads past the buffer.

* `fmtVfprintf_exact_iff` — the output is the rendering, whatever the buffer held before, exactly if the
  pieces fit.
* `long_format_overread` — a format of 4097 bytes.
* `fmtVfprintf_items` — matching items with 20 bytes to spare are printed.
-/

import Vaudou.Fmt.Passes
import Vaudou.Fmt.Pieces

namespace Vaudou

open Vaudou.Memory Vaudou.Text

/-- `vd_fmt_vfprintf`, with what it writes to the stream. Only the buffer's own bytes may be read. -/
def fmtVfprintf (lut : List FmtTable) (buf : Nat) (fmt : List UInt8) (state : FmtState) :
    Option (FmtState × List UInt8) := do
  let (state, ret) ← vsnfmt lut buf 4096 fmt state
  if 0 < ret then
    if ret ≤ 4096 then some (state, state.mem.load buf ret) else none
  else some (state, [])

/-- **Printing is exact**: the output is the rendering, whatever the buffer held before, so that no other
byte of it is read. -/
def PrintsExactly (printed : Nat → List UInt8) (mem : Mem) (buf : Nat) (pieces : List FmtPiece)
    (extra : List FmtArg) : Prop :=
  ∀ before, ChangedWithin mem before buf 4096 → ∃ state,
    fmtVfprintf (fmtDefLut printed) buf (piecesFormat pieces) ⟨before, piecesArgs pieces ++ extra⟩ =
      some (state, piecesRendering printed pieces)

variable {printed : Nat → List UInt8} {mem : Mem} {buf n nwrite : Nat} {rest : List UInt8}
  {args extra : List FmtArg} {piece : FmtPiece} {pieces : List FmtPiece}

/-! ### Pieces that do not fit -/

section Missing

variable {room : Nat}

/-- A specifier whose procedure has no room. -/
theorem count_specifier {name : List UInt8} {p : FmtProcFmt} {state : FmtState} {used : Nat}
    (closed : ∀ c ∈ name, c ≠ charByte '\x7d')
    (found : (fmtDefLut printed).find? (fun entry => entry.s == name) = some ⟨name, some p⟩)
    (behind : 4096 < nwrite) (small : nwrite + used < 2 ^ 64)
    (ran : p (buf + nwrite) 0 state = some (state, used)) :
    formatFrom (fmtDefLut printed) buf 4096 (specifier name ++ rest) nwrite state =
      formatFrom (fmtDefLut printed) buf 4096 rest (nwrite + used) state := by
  have left : available 4096 nwrite = 0 := if_pos behind
  rw [formatFrom_ran closed found (by rw [left, ran]), Nat.mod_eq_of_lt small]

/-- Behind the end of the buffer every piece counts, or finds an argument that was not read. -/
theorem print_beyond (textual : ∀ bits, printed bits ≠ [] ∧ 0 ∉ printed bits) {bits : Nat} {v : Int} :
    ∀ {pieces : List FmtPiece} {nwrite : Nat} {mem' : Mem} {result : FmtState × Nat},
      PiecesAccepted mem buf pieces → 4096 < nwrite →
      nwrite + 21 * (piecesRendering printed pieces).length < 2 ^ 64 →
      formatFrom (fmtDefLut printed) buf 4096 (piecesFormat pieces) nwrite
        ⟨mem', .word bits v :: args⟩ = some result → 4096 < result.2
  | [], nwrite, mem', result, _, behind, _, ran => by
    obtain rfl := Option.some.inj ran
    exact behind
  | piece :: pieces, nwrite, mem', result, accepted, behind, small, ran => by
    rw [piecesRendering_cons, List.length_append] at small
    cases piece with
    | byte c =>
      have one : 0 < (FmtPiece.rendering printed (.byte c)).length := Nat.one_pos
      rw [show piecesFormat (.byte c :: pieces) = c :: piecesFormat pieces from rfl,
        formatFrom_plain accepted.1, Nat.mod_eq_of_lt (by omega), putByte, if_neg (by omega)] at ran
      exact print_beyond textual accepted.2 (by omega) (by omega) ran
    | int spec arg =>
      have pos := rendering_pos textual accepted.1 (by simp)
      have scratch := spec.scratch
      refine print_beyond textual accepted.2 ?_ ?_ ((count_specifier spec.name_closed
        (fmtDefLut_int printed spec) behind ?_ spec.toStr_measure).symm.trans ran) <;> omega
    | str spec data content =>
      have stuck := (formatFrom_specifier spec.name_closed (fmtDefLut_str printed spec)).symm.trans ran
      rw [spec.proc_word] at stuck
      cases stuck
    | double bits' =>
      cases (formatFrom_specifier double_closed (fmtDefLut_double printed)).symm.trans ran
    | null =>
      have one : 0 < (FmtPiece.rendering printed .null).length := Nat.one_pos
      refine print_beyond textual accepted.2 ?_ ?_ ((count_specifier null_closed
        (fmtDefLut_null printed) behind ?_ rfl).symm.trans ran) <;> omega

/-- Pieces that are rendered as nothing need no room. -/
theorem piecesFit_empty (textual : ∀ bits, printed bits ≠ [] ∧ 0 ∉ printed bits) :
    ∀ {pieces : List FmtPiece}, PiecesAccepted mem buf pieces →
      piecesRendering printed pieces = [] → PiecesFit printed 0 pieces
  | [], _, _ => trivial
  | piece :: pieces, accepted, empty => by
    rw [piecesRendering_cons, List.append_eq_nil_iff] at empty
    obtain ⟨here, later⟩ := empty
    have string : ∃ spec data content, piece = .str spec data content := by
      by_contra strless
      simp only [not_exists] at strless
      have pos := rendering_pos textual accepted.1 strless
      rw [here] at pos
      exact absurd pos (Nat.lt_irrefl 0)
    obtain ⟨spec, data, content, rfl⟩ := string
    refine ⟨?_, ?_⟩
    · show ((FmtPiece.str spec data content).rendering printed).length ≤ 0
      rw [here]
      exact le_rfl
    · rw [here]
      exact piecesFit_empty textual accepted.2 later

/-- The terminator of `snprintf` takes the place of the last byte of a text as long as its room. -/
theorem terminated_ne {p : Nat} {text : List UInt8} (nonempty : text ≠ []) (nonzero : 0 ∉ text) :
    (mem.store p (text.take (text.length - 1) ++ [0])).load p text.length ≠ text := by
  have pos := List.length_pos_iff.mpr nonempty
  have cut : (text.take (text.length - 1) ++ [0]).length = text.length := by
    rw [List.length_append, List.length_take, List.length_singleton]
    omega
  have stored := load_store_same mem p (text.take (text.length - 1) ++ [0])
  rw [cut] at stored
  rw [stored]
  intro same
  rw [← same] at nonzero
  exact nonzero (List.mem_append_right _ List.mem_cons_self)

/-- A number that ends with the buffer loses its last byte. -/
theorem print_cut (textual : ∀ bits, printed bits ≠ [] ∧ 0 ∉ printed bits) {bits : Nat}
    {result : FmtState × Nat} (accepted : PiecesAccepted mem buf pieces)
    (whole : nwrite + (printed bits).length = 4096) (empty : piecesRendering printed pieces = [])
    (ran : formatFrom (fmtDefLut printed) buf 4096 (specifier (ascii "f64") ++ piecesFormat pieces) nwrite
      ⟨mem, .double bits :: (piecesArgs pieces ++ extra)⟩ = some result) :
    result.1.mem.load (buf + nwrite) (printed bits).length ≠ printed bits := by
  obtain ⟨nonempty, nonzero⟩ := textual bits
  have pos := List.length_pos_iff.mpr nonempty
  have proc : f64ToStr printed (buf + nwrite) (printed bits).length
      ⟨mem, .double bits :: (piecesArgs pieces ++ extra)⟩ =
        some (⟨mem.store (buf + nwrite) ((printed bits).take ((printed bits).length - 1) ++ [0]),
          piecesArgs pieces ++ extra⟩, (printed bits).length) := by
    show some _ = _
    rw [if_neg (by omega)]
  have change := store_changedWithin mem (buf + nwrite)
    ((printed bits).take ((printed bits).length - 1) ++ [0])
  rw [List.length_append, List.length_take, List.length_singleton] at change
  have here := (print_specifier double_closed (fmtDefLut_double printed) whole (by omega) proc).symm.trans
    ran
  obtain ⟨mem', later, wrote⟩ := print_pieces extra
    (accepted.congr (change.widen (Nat.le_add_right _ _) (by omega)))
    (show nwrite + (printed bits).length + 0 = 4096 from whole) (piecesFit_empty textual accepted empty)
  obtain rfl := Option.some.inj (later.symm.trans here)
  show mem'.load (buf + nwrite) (printed bits).length ≠ printed bits
  rw [load_congr (wrote.changed.same (Or.inl (by omega)))]
  exact terminated_ne nonempty nonzero

/-- **Pieces that do not fit** are not written as they should be: the count goes past the buffer, or the
terminator of a number stands on its last byte. -/
theorem print_missing (textual : ∀ bits, printed bits ≠ [] ∧ 0 ∉ printed bits) :
    ∀ {pieces : List FmtPiece} {nwrite room : Nat} {mem : Mem} {result : FmtState × Nat},
      PiecesAccepted mem buf pieces → nwrite + room = 4096 →
      (piecesRendering printed pieces).length ≤ room → ¬ PiecesFit printed room pieces →
      formatFrom (fmtDefLut printed) buf 4096 (piecesFormat pieces) nwrite
        ⟨mem, piecesArgs pieces ++ extra⟩ = some result →
      4096 < result.2 ∨ result.1.mem.load (buf + nwrite) (piecesRendering printed pieces).length ≠
        piecesRendering printed pieces
  | [], _, _, _, _, _, _, _, missing, _ => absurd trivial missing
  | piece :: pieces, nwrite, room, mem, result, accepted, whole, short, missing, ran => by
    rw [piecesRendering_cons, List.length_append] at short
    rw [piecesArgs_cons] at ran
    by_cases fits : piece.need printed ≤ room
    · have later : ¬ PiecesFit printed (room - (piece.rendering printed).length) pieces :=
        fun fit => missing ⟨fits, fit⟩
      obtain ⟨mem', here, wrote⟩ :=
        print_piece (piecesArgs pieces ++ extra) accepted.1 whole fits
      rcases print_missing textual
        (accepted.2.congr (wrote.changed.widen (Nat.le_add_right _ _) (by omega)))
        (by omega) (by omega) later (here.symm.trans ran) with past | wrong
      · exact Or.inl past
      · refine Or.inr fun exact_ => wrong ?_
        rw [piecesRendering_cons, List.length_append, load_append] at exact_
        rw [← Nat.add_assoc]
        exact (List.append_inj exact_ load_length).2
    · cases piece with
      | int spec arg =>
        have pos := rendering_pos textual accepted.1 (by simp)
        have scratch := spec.scratch
        obtain ⟨bytes, text⟩ := Option.isSome_iff_exists.mp accepted.1.2
        rw [FmtPiece.rendering, text, Option.getD_some] at short
        rw [FmtPiece.need, text, Option.getD_some, max_le_iff, not_and_or] at fits
        have few : room < spec.conversion.maxdigits - 1 := by omega
        refine Or.inl (print_beyond textual accepted.2 ?_ ?_ ((print_specifier spec.name_closed
          (fmtDefLut_int printed spec) whole ?_ (IntConversion.toStr_short few)).symm.trans ran)) <;>
            omega
      | double bits =>
        have fits : ¬ (printed bits).length + 1 ≤ room := fits
        have short : (printed bits).length + (piecesRendering printed pieces).length ≤ room := short
        obtain rfl : room = (printed bits).length := by omega
        have empty : piecesRendering printed pieces = [] := List.length_eq_zero_iff.mp (by omega)
        rw [piecesRendering_cons, empty, List.append_nil]
        exact Or.inr (print_cut textual accepted.2 whole empty ran)
      | _ => exact absurd (le_trans (Nat.le_add_right _ _) short) fits

end Missing

/-! ### Printing -/

section Printing

/-- The output is at most what the buffer holds. -/
theorem fmtVfprintf_length {lut : List FmtTable} {fmt output : List UInt8} {state state' : FmtState}
    (ran : fmtVfprintf lut buf fmt state = some (state', output)) : output.length ≤ 4096 := by
  unfold fmtVfprintf at ran
  obtain ⟨result, -, ran⟩ := Option.bind_eq_some_iff.mp ran
  dsimp only at ran
  split at ran
  · split at ran
    · next inside =>
      obtain rfl := (Prod.mk.inj (Option.some.inj ran)).2
      rwa [load_length]
    · cases ran
  · obtain rfl := (Prod.mk.inj (Option.some.inj ran)).2
    exact Nat.zero_le _

/-- **Pieces that fit are printed**, whatever the buffer held before. -/
theorem PiecesFit.printsExactly (fit : PiecesFit printed 4096 pieces)
    (accepted : PiecesAccepted mem buf pieces) (extra : List FmtArg) :
    PrintsExactly printed mem buf pieces extra := by
  intro before change
  obtain ⟨mem', formatted, wrote⟩ := print_pieces extra (accepted.congr change) (Nat.zero_add 4096) fit
  have loaded := wrote.loaded
  rw [Nat.add_zero] at loaded
  refine ⟨⟨mem', extra⟩, ?_⟩
  unfold fmtVfprintf
  rw [vsnfmt_eq, formatted]
  simp only [Option.bind_eq_bind, Option.bind_some, Nat.zero_add, if_pos fit.rendering_le, loaded]
  split
  next => rfl
  next empty => rw [List.length_eq_zero_iff.mp (Nat.eq_zero_of_not_pos empty)]

/-- Pieces that are printed fit. -/
theorem PrintsExactly.piecesFit (exact_ : PrintsExactly printed mem buf pieces extra)
    (textual : ∀ bits, printed bits ≠ [] ∧ 0 ∉ printed bits) (accepted : PiecesAccepted mem buf pieces) :
    PiecesFit printed 4096 pieces := by
  obtain ⟨state, ran⟩ := exact_ mem (ChangedWithin.refl mem buf 4096)
  have short := fmtVfprintf_length ran
  by_contra missing
  unfold fmtVfprintf at ran
  obtain ⟨result, formatted, ran⟩ := Option.bind_eq_some_iff.mp ran
  have wrong := print_missing textual accepted (Nat.zero_add 4096) short missing formatted
  dsimp only at ran
  split at ran
  next =>
    split at ran
    next inside =>
      have output := (Prod.mk.inj (Option.some.inj ran)).2
      refine wrong.elim (Nat.not_lt.mpr inside) fun differs => differs ?_
      rw [← output, load_length]
      rfl
    next => cases ran
  next =>
    have output := (Prod.mk.inj (Option.some.inj ran)).2
    refine wrong.elim (by omega) fun differs => differs ?_
    rw [← output]
    rfl

/-- **Printing is exact exactly if the pieces fit in 4096 bytes.** -/
theorem fmtVfprintf_exact_iff (printed : Nat → List UInt8)
    (textual : ∀ bits, printed bits ≠ [] ∧ 0 ∉ printed bits) (mem : Mem) (buf : Nat)
    (pieces : List FmtPiece) (extra : List FmtArg) (accepted : PiecesAccepted mem buf pieces) :
    PrintsExactly printed mem buf pieces extra ↔ PiecesFit printed 4096 pieces :=
  ⟨fun exact_ => exact_.piecesFit textual accepted, fun fit => fit.printsExactly accepted extra⟩

/-- A byte, 1.5 and an integer are printed. -/
theorem fmtVfprintf_exact_iff_number :
    PrintsExactly (fun _ => ascii "1.500000") (fun _ => 0) 1000
      [.byte (charByte '%'), .double 0x3FF8000000000000, .int .i32 (-7)] [] := by
  refine (fmtVfprintf_exact_iff _ (fun _ => ?_) _ 1000 _ [] ?_).mpr (piecesFit_of_spare ?_)
  · decide +kernel
  · decide +kernel
  · decide +kernel

/-- **A format of 4097 bytes** is read past the buffer. -/
theorem long_format_overread :
    ¬ ∀ (printed : Nat → List UInt8), (∀ bits, printed bits ≠ [] ∧ 0 ∉ printed bits) →
      ∀ (mem : Mem) (buf : Nat) (pieces : List FmtPiece) (extra : List FmtArg),
        PiecesAccepted mem buf pieces → PrintsExactly printed mem buf pieces extra := by
  intro claimed
  let bytes : List UInt8 := List.replicate 4097 (charByte 'a')
  have plain : ∀ c ∈ bytes, c ≠ charByte '%' := by
    intro c member
    rw [List.eq_of_mem_replicate member]
    decide
  have accepted : PiecesAccepted (fun _ => 0) 1000 (bytes.map .byte ++ []) :=
    piecesAccepted_bytes plain trivial
  obtain ⟨state, ran⟩ := claimed (fun _ => ascii "1.500000") (fun _ => by decide +kernel) _ _ _ []
    accepted (fun _ => 0) (ChangedWithin.refl _ _ _)
  have short := fmtVfprintf_length ran
  rw [List.append_nil, piecesRendering_bytes, List.length_replicate] at short
  exact absurd short (by norm_num)

/-- **Matching items with 20 bytes to spare** are printed as the reference says. -/
theorem fmtVfprintf_items {items : List FmtItem}
    (matching : ∀ item ∈ items, item.Matches mem buf (buf + 4096))
    (spare : (itemsRendering items).length + 20 ≤ 4096) (extra : List FmtArg) :
    ∃ state, fmtVfprintf (fmtDefLut printed) buf (itemsFormat items) ⟨mem, itemsArgs items ++ extra⟩ =
      some (state, itemsRendering items) := by
  obtain ⟨accepted, rendering⟩ := itemsPieces_accepted printed matching
  rw [← rendering] at spare
  obtain ⟨state, ran⟩ := (piecesFit_of_spare spare).printsExactly accepted extra mem
    (ChangedWithin.refl mem buf 4096)
  rw [itemsPieces_format, itemsPieces_args, rendering] at ran
  exact ⟨state, ran⟩

end Printing

end Vaudou
