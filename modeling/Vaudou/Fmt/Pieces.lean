/-
**The pieces of a format, in a buffer of 4096 bytes.**

A format is a list of pieces, the bytes between the specifiers one by one. `PiecesFit` walks over them with
the room that is left. An integer wants the room of all but one byte of its type's longest rendering, and a
floating point number one byte more than its text, for the terminator of `snprintf`.

* `print_pieces` — pieces that fit are written, one behind the other.
* `piecesFit_of_spare` — pieces with 20 bytes to spare fit.
* `itemsPieces_accepted` — matching items are accepted pieces, with the reference rendering.
-/

import Vaudou.Fmt.Bounds
import Vaudou.Fmt.Strings

namespace Vaudou

open Vaudou.Memory Vaudou.Text

/-- A byte of the format, or a specifier with its argument. -/
inductive FmtPiece where
  | byte (c : UInt8)
  | int (spec : IntSpec) (arg : Int)
  | str (spec : StrSpec) (data : Nat) (content : List UInt8)
  | double (bits : Nat)
  | null
deriving DecidableEq, Repr

namespace FmtPiece

variable (printed : Nat → List UInt8)

def format : FmtPiece → List UInt8
  | byte c => [c]
  | int spec _ => specifier spec.name
  | str spec _ _ => specifier spec.name
  | double _ => specifier (ascii "f64")
  | null => specifier (ascii "null")

def args : FmtPiece → List FmtArg
  | byte _ => []
  | int spec arg => [.word spec.conversion.argBits arg]
  | str spec data content => [spec.arg data content.length]
  | double bits => [.double bits]
  | null => []

/-- What the piece is rendered as: an integer as its procedure's text. -/
def rendering : FmtPiece → List UInt8
  | byte c => [c]
  | int spec arg => (spec.conversion.text arg).getD []
  | str spec _ content => spec.rendering content
  | double bits => printed bits
  | null => [0]

/-- The room without which the piece is not written as it should be. -/
def need : FmtPiece → Nat
  | int spec arg =>
    max (spec.conversion.maxdigits - 1) ((spec.conversion.text arg).getD []).length
  | double bits => (printed bits).length + 1
  | piece => (piece.rendering printed).length

/-- The formatter accepts the piece in front of `rest`: a percent sign alone is no specifier, an integer has
the type of its specifier and a text, and a string is there, apart from the buffer. -/
def Accepts (mem : Mem) (buf : Nat) (rest : List UInt8) : FmtPiece → Prop
  | byte c => ¬ (c = charByte '%' ∧ rest.head? = some (charByte '\x7b'))
  | int spec arg => WordRange spec.conversion.argBits spec.conversion.issigned arg ∧
    (spec.conversion.text arg).isSome = true
  | str spec data content => spec.Holds mem data content ∧
    (data + spec.extent content ≤ buf ∨ buf + 4096 ≤ data)
  | double _ => True
  | null => True

end FmtPiece

def piecesFormat (pieces : List FmtPiece) : List UInt8 := pieces.flatMap FmtPiece.format

def piecesArgs (pieces : List FmtPiece) : List FmtArg := pieces.flatMap FmtPiece.args

/-- **The rendering.** -/
def piecesRendering (printed : Nat → List UInt8) (pieces : List FmtPiece) : List UInt8 :=
  pieces.flatMap (FmtPiece.rendering printed)

/-- The pieces of an item. -/
def FmtItem.pieces : FmtItem → List FmtPiece
  | text bytes => bytes.map .byte
  | int spec v => [.int spec v]
  | str spec data content => [.str spec data content]
  | null => [.null]

def itemsPieces (items : List FmtItem) : List FmtPiece := items.flatMap FmtItem.pieces

/-- Every piece is accepted in front of those behind it. -/
def PiecesAccepted (mem : Mem) (buf : Nat) : List FmtPiece → Prop
  | [] => True
  | piece :: rest => piece.Accepts mem buf (piecesFormat rest) ∧ PiecesAccepted mem buf rest

/-- **Every piece fits in the room** that those before it leave. -/
def PiecesFit (printed : Nat → List UInt8) (room : Nat) : List FmtPiece → Prop
  | [] => True
  | piece :: rest => piece.need printed ≤ room ∧
    PiecesFit printed (room - (piece.rendering printed).length) rest

instance (mem : Mem) (buf : Nat) (rest : List UInt8) :
    ∀ piece : FmtPiece, Decidable (piece.Accepts mem buf rest)
  | .byte _ => inferInstanceAs (Decidable (¬ (_ ∧ _)))
  | .int _ _ => inferInstanceAs (Decidable (_ ∧ _ = _))
  | .str spec data content => inferInstanceAs (Decidable (spec.Holds mem data content ∧ (_ ∨ _)))
  | .double _ => inferInstanceAs (Decidable True)
  | .null => inferInstanceAs (Decidable True)

instance (mem : Mem) (buf : Nat) : ∀ pieces, Decidable (PiecesAccepted mem buf pieces)
  | [] => inferInstanceAs (Decidable True)
  | piece :: rest =>
    have : Decidable (PiecesAccepted mem buf rest) := instDecidablePiecesAccepted mem buf rest
    inferInstanceAs (Decidable (piece.Accepts mem buf (piecesFormat rest) ∧ _))

variable {printed : Nat → List UInt8} {mem : Mem} {buf n nwrite : Nat} {rest : List UInt8}
  {args extra : List FmtArg} {piece : FmtPiece} {pieces : List FmtPiece}

/-! ### Renderings -/

section Pieces

theorem piecesRendering_cons : piecesRendering printed (piece :: pieces) =
    piece.rendering printed ++ piecesRendering printed pieces := rfl

theorem piecesArgs_cons :
    piecesArgs (piece :: pieces) ++ extra = piece.args ++ (piecesArgs pieces ++ extra) :=
  List.append_assoc piece.args (piecesArgs pieces) extra

theorem fmtDefLut_double (printed : Nat → List UInt8) :
    (fmtDefLut printed).find? (fun entry => entry.s == ascii "f64") =
      some ⟨ascii "f64", some (f64ToStr printed)⟩ := rfl

theorem double_closed : ∀ c ∈ ascii "f64", c ≠ charByte '\x7d' := by decide +kernel

/-- A text of an integer is not empty. -/
theorem IntSpec.text_ne_nil {spec : IntSpec} {arg : Int} {bytes : List UInt8}
    (text : spec.conversion.text arg = some bytes) : bytes ≠ [] := by
  obtain ⟨bytes', resolved, nonempty⟩ := text_contained zeroReads spec arg
  obtain rfl := Option.some.inj ((text_resolved text).symm.trans resolved)
  exact nonempty

/-- Every piece but a string has a rendering. -/
theorem rendering_pos (textual : ∀ bits, printed bits ≠ [] ∧ 0 ∉ printed bits)
    (accepted : piece.Accepts mem buf rest) (strless : ∀ spec data content, piece ≠ .str spec data content) :
    0 < (piece.rendering printed).length := by
  cases piece with
  | int spec arg =>
    obtain ⟨bytes, text⟩ := Option.isSome_iff_exists.mp accepted.2
    rw [FmtPiece.rendering, text]
    exact List.length_pos_iff.mpr (IntSpec.text_ne_nil text)
  | str spec data content => exact absurd rfl (strless spec data content)
  | double bits => exact List.length_pos_iff.mpr (textual bits).1
  | _ => exact Nat.one_pos

theorem rendering_le_need : (piece.rendering printed).length ≤ piece.need printed := by
  cases piece with
  | int => exact le_max_right _ _
  | double => exact Nat.le_succ _
  | _ => exact le_rfl

/-- A piece needs at most 20 bytes more than it has. -/
theorem need_le_rendering : piece.need printed ≤ (piece.rendering printed).length + 20 := by
  cases piece with
  | int spec arg =>
    have scratch := spec.scratch
    exact max_le (by omega) (Nat.le_add_right _ 20)
  | double => exact Nat.add_le_add_left (by norm_num) _
  | _ => exact Nat.le_add_right _ 20

/-- **Pieces with 20 bytes to spare fit.** -/
theorem piecesFit_of_spare : ∀ {pieces : List FmtPiece} {room : Nat},
    (piecesRendering printed pieces).length + 20 ≤ room → PiecesFit printed room pieces
  | [], _, _ => trivial
  | piece :: pieces, room, spare => by
    rw [piecesRendering_cons, List.length_append] at spare
    have need : piece.need printed ≤ (piece.rendering printed).length + 20 := need_le_rendering
    exact ⟨by omega, piecesFit_of_spare (by omega)⟩

/-- Pieces that fit have a rendering that does. -/
theorem PiecesFit.rendering_le : ∀ {pieces : List FmtPiece} {room : Nat},
    PiecesFit printed room pieces → (piecesRendering printed pieces).length ≤ room
  | [], _, _ => Nat.zero_le _
  | piece :: pieces, room, fit => by
    have here := rendering_le_need.trans fit.1
    have later := fit.2.rendering_le
    rw [piecesRendering_cons, List.length_append]
    omega

theorem FmtPiece.Accepts.congr {mem' : Mem} (accepted : piece.Accepts mem buf rest)
    (change : ChangedWithin mem mem' buf 4096) : piece.Accepts mem' buf rest := by
  cases piece with
  | str spec data content =>
    have apart := accepted.2
    exact ⟨StrSpec.Holds.congr accepted.1 (change.same (by omega)), apart⟩
  | _ => exact accepted

theorem PiecesAccepted.congr {mem' : Mem} (change : ChangedWithin mem mem' buf 4096) :
    ∀ {pieces : List FmtPiece}, PiecesAccepted mem buf pieces → PiecesAccepted mem' buf pieces
  | [], _ => trivial
  | _ :: _, accepted => ⟨accepted.1.congr change, accepted.2.congr change⟩

end Pieces

/-! ### Items -/

section Items

theorem piecesRendering_append (first second : List FmtPiece) :
    piecesRendering printed (first ++ second) =
      piecesRendering printed first ++ piecesRendering printed second :=
  List.flatMap_append

theorem piecesRendering_bytes (bytes : List UInt8) :
    piecesRendering printed (bytes.map .byte) = bytes := by
  simp [piecesRendering, List.flatMap_map, FmtPiece.rendering]

/-- Bytes without a percent sign are accepted. -/
theorem piecesAccepted_bytes : ∀ {bytes : List UInt8}, (∀ c ∈ bytes, c ≠ charByte '%') →
    PiecesAccepted mem buf pieces → PiecesAccepted mem buf (bytes.map .byte ++ pieces)
  | [], _, accepted => accepted
  | c :: _, plain, accepted => ⟨fun specifier => plain c List.mem_cons_self specifier.1,
      piecesAccepted_bytes (fun d member => plain d (List.mem_cons_of_mem c member)) accepted⟩

theorem itemsPieces_format : ∀ items, piecesFormat (itemsPieces items) = itemsFormat items
  | [] => rfl
  | item :: items => by
    have rest := itemsPieces_format items
    simp only [piecesFormat, itemsPieces, itemsFormat, List.flatMap_cons, List.flatMap_append] at rest ⊢
    rw [rest]
    congr 1
    cases item <;> simp [FmtItem.pieces, FmtItem.format, FmtPiece.format, List.flatMap_map]

theorem itemsPieces_args : ∀ items, piecesArgs (itemsPieces items) = itemsArgs items
  | [] => rfl
  | item :: items => by
    have rest := itemsPieces_args items
    simp only [piecesArgs, itemsPieces, itemsArgs, List.flatMap_cons, List.flatMap_append] at rest ⊢
    rw [rest]
    congr 1
    cases item <;> simp [FmtItem.pieces, FmtItem.args, FmtPiece.args, List.flatMap_map]

variable (printed) in
/-- **Matching items are accepted**, and their pieces are rendered as the reference says. -/
theorem itemsPieces_accepted : ∀ {items : List FmtItem},
    (∀ item ∈ items, item.Matches mem buf (buf + 4096)) →
      PiecesAccepted mem buf (itemsPieces items) ∧
        piecesRendering printed (itemsPieces items) = itemsRendering items
  | [], _ => ⟨trivial, rfl⟩
  | item :: items, matching => by
    obtain ⟨accepted, rendering⟩ :=
      itemsPieces_accepted fun other member => matching other (List.mem_cons_of_mem item member)
    have here := matching item List.mem_cons_self
    show PiecesAccepted mem buf (item.pieces ++ itemsPieces items) ∧
      piecesRendering printed (item.pieces ++ itemsPieces items) = item.rendering ++ itemsRendering items
    rw [piecesRendering_append, rendering]
    cases item with
    | text bytes =>
      exact ⟨piecesAccepted_bytes (fun c member => (here c member).1) accepted,
        congrArg (· ++ itemsRendering items) (piecesRendering_bytes bytes)⟩
    | int spec v =>
      have renders := IntSpec.Admits.renders here
      have text := IntConversion.text_spec renders.wrapped renders.negated renders.doubles.pairs
        renders.digits renders.scratch
      refine ⟨⟨⟨renders.arg, by rw [text, Option.isSome_some]⟩, accepted⟩, ?_⟩
      show (spec.conversion.text v).getD [] ++ [] ++ itemsRendering items = _
      rw [text, Option.getD_some, List.append_nil]
      rfl
    | str spec data content =>
      refine ⟨⟨here, accepted⟩, ?_⟩
      show spec.rendering content ++ [] ++ itemsRendering items = _
      rw [List.append_nil]
      rfl
    | null => exact ⟨⟨trivial, accepted⟩, rfl⟩

end Items

/-! ### Pieces that fit -/

/-- The bytes stand at `p`, and nothing but the `room` bytes there has changed. -/
structure Written (mem mem' : Mem) (p room : Nat) (bytes : List UInt8) : Prop where
  changed : ChangedWithin mem mem' p room
  loaded : mem'.load p bytes.length = bytes

section Fitting

variable {room : Nat}

theorem written_store {p : Nat} {bytes : List UInt8} (fits : bytes.length ≤ room) :
    Written mem (mem.store p bytes) p room bytes :=
  ⟨(store_changedWithin mem p bytes).widen le_rfl (by omega), load_store_same mem p bytes⟩

theorem Written.append {mem' mem'' : Mem} {p : Nat} {first second : List UInt8}
    (front : Written mem mem' p room first) (fits : first.length ≤ room)
    (back : Written mem' mem'' (p + first.length) (room - first.length) second) :
    Written mem mem'' p room (first ++ second) := by
  refine ⟨front.changed.trans (back.changed.widen (by omega) (by omega)), ?_⟩
  rw [List.length_append, load_append, back.loaded,
    load_congr (back.changed.same (Or.inl le_rfl)), front.loaded]

/-- A specifier whose procedure runs in the rest of the buffer. -/
theorem print_specifier {name : List UInt8} {p : FmtProcFmt} {state state' : FmtState} {used : Nat}
    (closed : ∀ c ∈ name, c ≠ charByte '\x7d')
    (found : (fmtDefLut printed).find? (fun entry => entry.s == name) = some ⟨name, some p⟩)
    (whole : nwrite + room = 4096) (small : used < 2 ^ 32)
    (ran : p (buf + nwrite) room state = some (state', used)) :
    formatFrom (fmtDefLut printed) buf 4096 (specifier name ++ rest) nwrite state =
      formatFrom (fmtDefLut printed) buf 4096 rest (nwrite + used) state' := by
  have left : available 4096 nwrite = room := by
    unfold available
    split <;> omega
  rw [formatFrom_ran closed found (by rw [left, ran]), Nat.mod_eq_of_lt (by omega)]

/-- **A piece that fits is written.** -/
theorem print_piece (args : List FmtArg) (accepted : piece.Accepts mem buf rest) (whole : nwrite + room = 4096)
    (fits : piece.need printed ≤ room) :
    ∃ mem', formatFrom (fmtDefLut printed) buf 4096 (piece.format ++ rest) nwrite
        ⟨mem, piece.args ++ args⟩ =
      formatFrom (fmtDefLut printed) buf 4096 rest (nwrite + (piece.rendering printed).length)
        ⟨mem', args⟩ ∧ Written mem mem' (buf + nwrite) room (piece.rendering printed) := by
  have length := rendering_le_need.trans fits
  cases piece with
  | byte c =>
    refine ⟨mem.store (buf + nwrite) [c], ?_, written_store length⟩
    have one : 1 ≤ room := length
    refine (formatFrom_plain accepted).trans ?_
    rw [Nat.mod_eq_of_lt (by omega), putByte, if_pos (by omega)]
    rfl
  | int spec arg =>
    obtain ⟨range, defined⟩ := accepted
    obtain ⟨bytes, text⟩ := Option.isSome_iff_exists.mp defined
    rw [FmtPiece.need, text, Option.getD_some, max_le_iff] at fits
    rw [FmtPiece.rendering, text, Option.getD_some]
    refine ⟨mem.store (buf + nwrite) bytes, ?_, written_store fits.2⟩
    refine print_specifier spec.name_closed (fmtDefLut_int printed spec) whole (by omega) ?_
    have read : vaArgInt spec.conversion.argBits spec.conversion.issigned
        (.word spec.conversion.argBits arg :: args) = some (arg, args) := if_pos ⟨rfl, range⟩
    refine (IntConversion.toStr_read fits.1 read).trans ?_
    rw [text, Option.map_some, putText, if_neg (by omega)]
  | str spec data content =>
    have holds := accepted.1
    have apart := accepted.2
    have extent := spec.length_le_extent content
    have same : (spec.rendering content).length = content.length := spec.rendering_length
    have fits' : content.length ≤ room := same ▸ length
    have short : (FmtItem.str spec data content).Short := by
      cases spec with
      | pathu32 => show content.length < 2 ^ 31; omega
      | _ => trivial
    refine ⟨mem.store (buf + nwrite) (spec.rendering content), ?_, written_store length⟩
    show _ = formatFrom _ buf 4096 rest (nwrite + (spec.rendering content).length) _
    rw [same]
    exact print_specifier spec.name_closed (fmtDefLut_str printed spec) whole (by omega)
      (StrSpec.proc_write holds fits' (by omega) short)
  | double bits =>
    have fits' : (printed bits).length + 1 ≤ room := fits
    have whole' : (printed bits).take (room - 1) = printed bits :=
      List.take_of_length_le (by omega)
    have stored := load_store_same mem (buf + nwrite) (printed bits ++ [0])
    rw [List.length_append, List.length_singleton, load_append] at stored
    refine ⟨mem.store (buf + nwrite) (printed bits ++ [0]), ?_, ?_, ?_⟩
    · refine print_specifier double_closed (fmtDefLut_double printed) whole (by omega) ?_
      show some _ = _
      rw [if_neg (by omega), whole']
      rfl
    · refine (store_changedWithin mem (buf + nwrite) _).widen le_rfl ?_
      rw [List.length_append, List.length_singleton]
      omega
    · exact (List.append_inj stored load_length).1
  | null =>
    have one : 1 ≤ room := length
    refine ⟨mem.store (buf + nwrite) [0], ?_, written_store length⟩
    exact print_specifier null_closed (fmtDefLut_null printed) whole (Nat.one_lt_two_pow (by norm_num))
      (if_neg (by omega))

/-- **Pieces that fit are written.** -/
theorem print_pieces (extra : List FmtArg) : ∀ {pieces : List FmtPiece} {nwrite room : Nat} {mem : Mem},
    PiecesAccepted mem buf pieces → nwrite + room = 4096 → PiecesFit printed room pieces →
      ∃ mem', formatFrom (fmtDefLut printed) buf 4096 (piecesFormat pieces) nwrite
          ⟨mem, piecesArgs pieces ++ extra⟩ =
        some (⟨mem', extra⟩, nwrite + (piecesRendering printed pieces).length) ∧
        Written mem mem' (buf + nwrite) room (piecesRendering printed pieces)
  | [], nwrite, room, mem, _, _, _ => ⟨mem, rfl, ChangedWithin.refl mem _ _, rfl⟩
  | piece :: pieces, nwrite, room, mem, accepted, whole, fit => by
    have fits := rendering_le_need.trans fit.1
    obtain ⟨mem', here, wrote⟩ := print_piece (piecesArgs pieces ++ extra) accepted.1 whole fit.1
    obtain ⟨mem'', later, wrote'⟩ := print_pieces extra
      (accepted.2.congr (wrote.changed.widen (Nat.le_add_right _ _) (by omega)))
      (show nwrite + (piece.rendering printed).length +
        (room - (piece.rendering printed).length) = 4096 by omega) fit.2
    rw [← Nat.add_assoc] at wrote'
    refine ⟨mem'', ?_, wrote.append fits wrote'⟩
    rw [piecesArgs_cons]
    refine here.trans (later.trans ?_)
    rw [piecesRendering_cons, List.length_append, Nat.add_assoc]

end Fitting

end Vaudou
