/-
**The tokens of the C lexer of `vd_c.h`.**

`vd_c__tnext` passes over blanks and over comments to the end of their line, and reads a token of one or two
characters. What it reads is described from the other side by `Renders`: a text renders tokens if it is their
lexemes in order, with gaps in front of them, and no `/`, `+` or `-` stands in front of another one that would
make a comment or a longer token of it.

* `cTnext_gap` — gaps are passed over.
* `renders_exists` — every text renders some tokens.
* **`tokenizer_exact`** — and the calls return these, with their places, and unknown tokens behind them.

A byte of 255 reads like the end of the text, so that it ends a comment; it is a token of its own elsewhere,
and takes no column. The second character of `++` and `--` takes none either.
-/

import Vaudou.Text.LexerPositions

namespace Vaudou

open Vaudou.Text

/-! ### The tokenizer -/

/-- The types of tokens. -/
inductive CTokenType where
  | eof
  | unknown
  | whitespace
  | keyword
  | ident
  | addition
  | subtraction
  | star
  | division
  | incrementation
  | decrementation
  | parenEnter
  | parenExit
  | braceEnter
  | braceExit
  | id
deriving DecidableEq, Repr

/-- `VD__CToken`. -/
structure CToken where
  line : Int32
  column : Int32
  type : CTokenType
deriving DecidableEq, Repr

/-- `vd_c__tnew`. -/
def cTnew (inst : CLexer) (type : CTokenType) : CToken := ⟨inst.line, inst.column, type⟩

/-- The loop over a comment; `none` is a loop that has not ended. -/
def commentLoop : (fuel : Nat) → CLexer → Option CLexer
  | 0, _ => none
  | fuel + 1, inst =>
    let (y, inst) := cGet inst
    if y ≠ charInt lineFeed ∧ y ≠ -1 then commentLoop fuel inst else some inst

/-- The tokens of one character that nothing can follow. -/
def singles : List (UInt8 × CTokenType) :=
  [(42, .star), (40, .parenEnter), (41, .parenExit), (123, .braceEnter), (125, .braceExit)]

/-- `'+'` and `'-'`: one character, or two. -/
def oneOrTwo (inst : CLexer) (c : UInt8) (one two : CTokenType) : CToken × CLexer :=
  if cPeekchar inst = charInt c then
    let inst := (cGetchar inst).2
    (cTnew inst two, inst)
  else (cTnew inst one, inst)

/-- `vd_c__tnext`, with a unit of fuel for every `goto START`. -/
def cTnext : (fuel : Nat) → CLexer → Option (CToken × CLexer)
  | 0, _ => none
  | fuel + 1, inst =>
    let (c, inst) := cGet inst
    if c = charInt 47 then
      if cPeekchar inst = charInt 47 then (commentLoop fuel inst).bind (cTnext fuel)
      else some (cTnew inst .division, inst)
    else if c = charInt 32 ∨ c = charInt 9 then cTnext fuel inst
    else if c = charInt 43 then some (oneOrTwo inst 43 .addition .incrementation)
    else if c = charInt 45 then some (oneOrTwo inst 45 .subtraction .decrementation)
    else
      match singles.find? fun single => c = charInt single.1 with
      | some single => some (cTnew inst single.2, inst)
      | none => some (cTnew inst .unknown, inst)

/-- So many calls of `vd_c__tnext`. -/
def cTnexts (fuel : Nat) : (calls : Nat) → CLexer → Option (List CToken)
  | 0, _ => some []
  | calls + 1, inst => (cTnext fuel inst).bind fun next =>
    (cTnexts fuel calls next.2).map fun later => next.1 :: later

/-! ### What is rendered -/

/-- Where the lexer is after it has got a character. -/
def advance (place : Int32 × Int32) (c : UInt8) : Int32 × Int32 :=
  if c = lineFeed then (place.1 + 1, 1)
  else if c = 255 then place
  else (place.1, place.2 + 1)

/-- Where it is after a text. -/
def advances (place : Int32 × Int32) (text : List UInt8) : Int32 × Int32 := text.foldl advance place

/-- What ends a comment. -/
def EndsComment (c : UInt8) : Prop := c = lineFeed ∨ c = 255

instance (c : UInt8) : Decidable (EndsComment c) := inferInstanceAs (Decidable (_ ∨ _))

/-- A comment as long as nothing ends it. -/
def comment (body : List UInt8) : List UInt8 := 47 :: 47 :: body

/-- **A gap**: blanks, and comments with what ends them. -/
inductive CGap : List UInt8 → Prop where
  | nil : CGap []
  | blank {c rest} : c = 32 ∨ c = 9 → CGap rest → CGap (c :: rest)
  | comment {body stop rest} : (∀ c ∈ body, ¬ EndsComment c) → EndsComment stop → CGap rest →
      CGap (comment body ++ stop :: rest)

/-- The gap at the end of a text, with a comment that nothing ends. -/
inductive LastCGap : List UInt8 → Prop where
  | gap {gap} : CGap gap → LastCGap gap
  | comment {gap body} : CGap gap → (∀ c ∈ body, ¬ EndsComment c) → LastCGap (gap ++ comment body)

/-- The characters that are not read as unknown tokens. -/
def known : List UInt8 := [47, 32, 9, 43, 45] ++ singles.map Prod.fst

/-- The lexemes of a type. -/
inductive Lexeme : CTokenType → List UInt8 → Prop where
  | division : Lexeme .division [47]
  | addition : Lexeme .addition [43]
  | incrementation : Lexeme .incrementation [43, 43]
  | subtraction : Lexeme .subtraction [45]
  | decrementation : Lexeme .decrementation [45, 45]
  | single {c type} : (c, type) ∈ singles → Lexeme type [c]
  | unknown {c} : c ∉ known → Lexeme .unknown [c]

/-- A lexeme that goes on with what is behind it. -/
def RunsOn (lexeme rest : List UInt8) : Prop :=
  ∃ c, (c = 47 ∨ c = 43 ∨ c = 45) ∧ lexeme = [c] ∧ rest.head? = some c

/-- **What a text renders**, from a place on: the tokens, and the place where the text ends. -/
inductive Renders : Int32 × Int32 → List CToken → Int32 × Int32 → List UInt8 → Prop where
  | done {place gap} : LastCGap gap → Renders place [] (advances place gap) gap
  | token {place gap type c more rest tokens stop} : CGap gap → Lexeme type (c :: more) →
      ¬ RunsOn (c :: more) rest → Renders (advances place (gap ++ [c])) tokens stop rest →
      Renders place (⟨(advances place (gap ++ [c])).1, (advances place (gap ++ [c])).2, type⟩ :: tokens)
        stop (gap ++ (c :: more ++ rest))

/-! ### Reading on -/

section Reading

variable {inst : CLexer} {text rest body : List UInt8} {c : UInt8} {fuel : Nat}

/-- The place of the lexer. -/
def CLexer.place (inst : CLexer) : Int32 × Int32 := (inst.line, inst.column)

/-- The lexer behind a text. -/
def CLexer.past (inst : CLexer) (text : List UInt8) : CLexer :=
  ⟨inst.str, inst.i + text.length, (advances inst.place text).1, (advances inst.place text).2⟩

/-- The text in front of the lexer. -/
def CLexer.ahead (inst : CLexer) : List UInt8 := inst.str.drop inst.i

@[simp] theorem CLexer.place_past (inst : CLexer) (text : List UInt8) :
    (inst.past text).place = advances inst.place text := rfl

@[simp] theorem CLexer.past_nil (inst : CLexer) : inst.past [] = inst := rfl

@[simp] theorem advances_append (place : Int32 × Int32) (text rest : List UInt8) :
    advances place (text ++ rest) = advances (advances place text) rest := List.foldl_append

@[simp] theorem CLexer.past_append (inst : CLexer) (text rest : List UInt8) :
    inst.past (text ++ rest) = (inst.past text).past rest := by
  simp [CLexer.past, CLexer.place, Nat.add_assoc]

theorem CLexer.past_cons (inst : CLexer) (c : UInt8) (rest : List UInt8) :
    inst.past (c :: rest) = (inst.past [c]).past rest := inst.past_append [c] rest

/-- What is in front of the lexer behind a text. -/
theorem CLexer.ahead_past (text : List UInt8) (before : inst.ahead = text ++ rest) :
    (inst.past text).ahead = rest := by
  have split := congrArg (List.drop text.length) before
  simpa [CLexer.ahead, CLexer.past, Nat.add_comm] using split

theorem charInt_inj {c d : UInt8} : charInt c = charInt d ↔ c = d :=
  Int8.toInt_inj.trans
    ⟨fun same => by simpa using congrArg Int8.toUInt8 same, fun same => congrArg UInt8.toInt8 same⟩

theorem charInt_eq_end : charInt c = -1 ↔ c = 255 := charInt_inj (d := 255)

/-- The next character. -/
theorem CLexer.next (before : inst.ahead = c :: rest) : inst.str[inst.i]? = some c := by
  have head := congrArg List.head? before
  simpa [CLexer.ahead, List.head?_drop] using head

/-- **A character is got.** -/
theorem cGet_past (before : inst.ahead = c :: rest) : cGet inst = (charInt c, inst.past [c]) := by
  rw [cGet_some (CLexer.next before)]
  simp only [CLexer.past, advances, advance, List.foldl_cons, List.foldl_nil, List.length_singleton, ne_eq,
    charInt_eq_end, CLexer.place]
  split_ifs <;> rfl

theorem cGet_ended (before : inst.ahead = []) : cGet inst = (-1, inst) := by
  refine cGet_none ?_
  have head := congrArg List.head? before
  simpa [CLexer.ahead, List.head?_drop] using head

/-- What is peeked. -/
theorem cPeekchar_eq (inst : CLexer) (d : UInt8) (inside : d ≠ 255) :
    cPeekchar inst = charInt d ↔ inst.ahead.head? = some d := by
  unfold cPeekchar CLexer.ahead
  rw [List.head?_drop]
  cases inst.str[inst.i]? with
  | none => exact iff_of_false (fun same => inside (charInt_eq_end.mp same.symm)) nofun
  | some c => simp [charInt_inj]

/-- **A comment is passed over**, with what ends it. The induction is over its text. -/
theorem commentLoop_stops {stop : UInt8} (stops : EndsComment stop) :
    ∀ {body : List UInt8} {inst : CLexer} {fuel : Nat}, (∀ c ∈ body, ¬ EndsComment c) →
      inst.ahead = body ++ stop :: rest → body.length < fuel →
      commentLoop fuel inst = some (inst.past (body ++ [stop]))
  | _, _, 0, _, _, few => absurd few (Nat.not_lt_zero _)
  | [], inst, fuel + 1, _, before, _ => by
    have ends : ¬ (charInt stop ≠ charInt lineFeed ∧ charInt stop ≠ -1) := by
      simpa [charInt_inj, charInt_eq_end, EndsComment, or_iff_not_imp_left] using stops
    simp only [commentLoop, cGet_past before, if_neg ends]
    rfl
  | c :: body, inst, fuel + 1, plain, before, few => by
    have goes : charInt c ≠ charInt lineFeed ∧ charInt c ≠ -1 := by
      simpa [charInt_inj, charInt_eq_end, EndsComment] using plain c List.mem_cons_self
    have later := commentLoop_stops stops (fun d member => plain d (List.mem_cons_of_mem _ member))
      (CLexer.ahead_past [c] before) (Nat.lt_of_succ_lt_succ few)
    simp only [commentLoop, cGet_past before, if_pos goes]
    exact later.trans (congrArg some (inst.past_cons c _).symm)

/-- A comment that nothing ends is passed over. -/
theorem commentLoop_last : ∀ {body : List UInt8} {inst : CLexer} {fuel : Nat},
    (∀ c ∈ body, ¬ EndsComment c) → inst.ahead = body → body.length < fuel →
    commentLoop fuel inst = some (inst.past body)
  | _, _, 0, _, _, few => absurd few (Nat.not_lt_zero _)
  | [], inst, fuel + 1, _, before, _ => by
    simp [commentLoop, cGet_ended before]
  | c :: body, inst, fuel + 1, plain, before, few => by
    have goes : charInt c ≠ charInt lineFeed ∧ charInt c ≠ -1 := by
      simpa [charInt_inj, charInt_eq_end, EndsComment] using plain c List.mem_cons_self
    have later := commentLoop_last (fun d member => plain d (List.mem_cons_of_mem _ member))
      (CLexer.ahead_past [c] before) (Nat.lt_of_succ_lt_succ few)
    simp only [commentLoop, cGet_past before, if_pos goes]
    exact later.trans (congrArg some (inst.past_cons c _).symm)

/-! ### One token -/

/-- The next text, in front of what follows it, is passed over by as many characters of fuel. -/
theorem cTnext_gap {result : Option (CToken × CLexer)} {gap : List UInt8} (passed : CGap gap) :
    ∀ {inst : CLexer} {fuel : Nat}, inst.ahead = gap ++ rest → (gap ++ rest).length < fuel →
      (∀ fuel, rest.length < fuel → cTnext fuel (inst.past gap) = result) → cTnext fuel inst = result := by
  induction passed with
  | nil => exact fun _ enough reads => reads _ enough
  | @blank c after kind _ ih =>
    intro inst fuel before enough reads
    obtain ⟨fuel, rfl⟩ := Nat.exists_eq_succ_of_ne_zero (Nat.ne_zero_of_lt enough)
    have later := ih (CLexer.ahead_past [c] before) (Nat.lt_of_succ_lt_succ enough)
      fun fuel more => by
        rw [← inst.past_cons]
        exact reads fuel more
    rcases kind with rfl | rfl <;> simpa [cTnext, cGet_past before, charInt_inj] using later
  | @comment body stop after plain stops _ ih =>
    intro inst fuel before enough reads
    obtain ⟨fuel, rfl⟩ := Nat.exists_eq_succ_of_ne_zero (Nat.ne_zero_of_lt enough)
    rw [comment, List.append_assoc, List.cons_append, List.cons_append, List.cons_append] at before
    simp only [comment, List.length_append, List.length_cons, Nat.succ_eq_add_one] at enough
    have second : (inst.past [47]).ahead = 47 :: (body ++ stop :: (after ++ rest)) :=
      CLexer.ahead_past [47] before
    have slash : ∀ c ∈ 47 :: body, ¬ EndsComment c := by
      intro c member
      rcases List.mem_cons.mp member with rfl | inside
      · decide
      · exact plain c inside
    have loop : commentLoop fuel (inst.past [47]) = some ((inst.past [47]).past (47 :: body ++ [stop])) :=
      commentLoop_stops stops slash second (by simp only [List.length_cons]; omega)
    have whole : (inst.past [47]).past (47 :: body ++ [stop]) = inst.past (comment body ++ [stop]) :=
      (inst.past_cons 47 _).symm
    have ahead : (inst.past (comment body ++ [stop])).ahead = after ++ rest := by
      refine CLexer.ahead_past _ ?_
      rw [before]
      simp [comment]
    have later : cTnext fuel (inst.past (comment body ++ [stop])) = result := by
      refine ih ahead (by simp only [List.length_append]; omega) fun fuel more => ?_
      rw [← CLexer.past_append, List.append_assoc]
      exact reads fuel more
    have peeked : cPeekchar (inst.past [47]) = charInt 47 := by
      rw [cPeekchar_eq _ _ (by decide), second]
      rfl
    rw [cTnext, cGet_past before]
    simp only [peeked, if_true, loop, whole, Option.bind_some, later]

/-- The lexer behind a lexeme, of which only the first character was counted. -/
def CLexer.behind (inst : CLexer) (c : UInt8) (more : List UInt8) : CLexer :=
  { inst.past [c] with i := inst.i + (c :: more).length }

theorem CLexer.behind_nil (inst : CLexer) (c : UInt8) : inst.behind c [] = inst.past [c] := rfl

theorem CLexer.ahead_behind {more : List UInt8} (before : inst.ahead = c :: more ++ rest) :
    (inst.behind c more).ahead = rest :=
  CLexer.ahead_past (c :: more) before

/-- **A lexeme is read.** -/
theorem cTnext_lexeme {type : CTokenType} {more : List UInt8} (lexeme : Lexeme type (c :: more))
    (ends : ¬ RunsOn (c :: more) rest) (before : inst.ahead = c :: more ++ rest) (fuel : Nat) :
    cTnext (fuel + 1) inst = some (cTnew (inst.past [c]) type, inst.behind c more) := by
  have second : (inst.past [c]).ahead = more ++ rest := CLexer.ahead_past [c] before
  have got := cGet_past (List.cons_append ▸ before)
  have alone : ∀ d, d = 47 ∨ d = 43 ∨ d = 45 → c = d → more = [] → cPeekchar (inst.past [c]) ≠ charInt d := by
    rintro d kind rfl rfl peeked
    rw [cPeekchar_eq _ _ (by rcases kind with rfl | rfl | rfl <;> decide), second] at peeked
    exact ends ⟨c, kind, rfl, peeked⟩
  have double : more = [c] → c ≠ 255 → cPeekchar (inst.past [c]) = charInt c ∧
      (cGetchar (inst.past [c])).2 = inst.behind c more := by
    rintro rfl inside
    rw [cPeekchar_eq _ _ inside, second]
    refine ⟨rfl, ?_⟩
    have next := CLexer.next second
    unfold cGetchar
    rw [next]
    rfl
  rw [cTnext, got]
  cases lexeme with
  | division =>
    simp [alone 47 (by simp) rfl rfl, CLexer.behind_nil]
  | addition =>
    simp [oneOrTwo, alone 43 (by simp) rfl rfl, CLexer.behind_nil, charInt_inj]
  | subtraction =>
    simp [oneOrTwo, alone 45 (by simp) rfl rfl, CLexer.behind_nil, charInt_inj]
  | incrementation =>
    obtain ⟨peeked, behind⟩ := double rfl (by decide)
    simp [oneOrTwo, peeked, behind, charInt_inj]
    rfl
  | decrementation =>
    obtain ⟨peeked, behind⟩ := double rfl (by decide)
    simp [oneOrTwo, peeked, behind, charInt_inj]
    rfl
  | single member =>
    simp only [singles, List.mem_cons, Prod.mk.injEq, List.not_mem_nil, or_false] at member
    rcases member with ⟨rfl, rfl⟩ | ⟨rfl, rfl⟩ | ⟨rfl, rfl⟩ | ⟨rfl, rfl⟩ | ⟨rfl, rfl⟩ <;>
      simp [singles, charInt_inj, CLexer.behind_nil]
  | unknown other =>
    simp only [known, singles, List.map_cons, List.map_nil, List.cons_append, List.nil_append,
      List.mem_cons, List.not_mem_nil, or_false, not_or] at other
    simp [singles, charInt_inj, CLexer.behind_nil, other]

/-- At the end of the text. -/
theorem cTnext_ended (before : inst.ahead = []) (fuel : Nat) :
    cTnext (fuel + 1) inst = some (cTnew inst .unknown, inst) := by
  rw [cTnext, cGet_ended before]
  have ends : ∀ d : UInt8, d ≠ 255 → (-1 : Int) ≠ charInt d := fun d other same =>
    other (charInt_eq_end.mp same.symm)
  simp [singles, ends]

/-- **The last gap is passed over** to the end of the text. -/
theorem cTnext_lastGap {gap : List UInt8} (last : LastCGap gap) (before : inst.ahead = gap)
    (enough : gap.length + 1 < fuel) :
    cTnext fuel inst = some (cTnew (inst.past gap) .unknown, inst.past gap) := by
  cases last with
  | gap passed =>
    refine cTnext_gap passed (by rw [before, List.append_nil]) (by rw [List.append_nil]; omega)
      fun fuel more => ?_
    obtain ⟨fuel, rfl⟩ := Nat.exists_eq_succ_of_ne_zero (Nat.ne_zero_of_lt more)
    exact cTnext_ended (CLexer.ahead_past gap (by rw [before, List.append_nil])) fuel
  | @comment gap body passed plain =>
    refine cTnext_gap passed before (Nat.lt_of_succ_lt enough) fun fuel more => ?_
    obtain ⟨fuel, rfl⟩ := Nat.exists_eq_succ_of_ne_zero (Nat.ne_zero_of_lt more)
    simp only [comment, List.length_cons] at more
    have ahead : (inst.past gap).ahead = 47 :: 47 :: body := CLexer.ahead_past gap before
    have second : ((inst.past gap).past [47]).ahead = 47 :: body := CLexer.ahead_past [47] ahead
    have slash : ∀ c ∈ 47 :: body, ¬ EndsComment c := by
      intro c member
      rcases List.mem_cons.mp member with rfl | inside
      · decide
      · exact plain c inside
    have loop : commentLoop fuel ((inst.past gap).past [47]) =
        some (((inst.past gap).past [47]).past (47 :: body)) :=
      commentLoop_last slash second (by simp only [List.length_cons]; omega)
    have whole : ((inst.past gap).past [47]).past (47 :: body) = inst.past (gap ++ comment body) := by
      rw [← CLexer.past_cons, ← CLexer.past_append]
      rfl
    have ended : (inst.past (gap ++ comment body)).ahead = [] :=
      CLexer.ahead_past (gap ++ comment body) (before.trans (List.append_nil _).symm)
    have peeked : cPeekchar ((inst.past gap).past [47]) = charInt 47 := by
      rw [cPeekchar_eq _ _ (by decide), second]
      rfl
    obtain ⟨fuel, rfl⟩ := Nat.exists_eq_succ_of_ne_zero (show fuel ≠ 0 by omega)
    rw [cTnext, cGet_past ahead]
    simp only [peeked, if_true, loop, whole, Option.bind_some]
    exact cTnext_ended ended fuel

end Reading

/-! ### All tokens -/

section Tokens

variable {inst : CLexer} {text : List UInt8} {place stop : Int32 × Int32} {tokens : List CToken}
  {fuel calls : Nat}

/-- At the end of the text all tokens are unknown. -/
theorem cTnexts_ended (before : inst.ahead = []) (fuel : Nat) : ∀ calls, cTnexts (fuel + 1) calls inst =
    some (List.replicate calls (cTnew inst .unknown))
  | 0 => rfl
  | calls + 1 => by
    simp [cTnexts, cTnext_ended before, cTnexts_ended before fuel calls, List.replicate_succ]

/-- **The calls return what the text renders**, and unknown tokens behind it. The induction is over what is
rendered. -/
theorem Renders.tnexts (renders : Renders place tokens stop text) :
    ∀ {inst : CLexer} (calls : Nat), inst.ahead = text → inst.place = place → text.length + 1 < fuel →
      cTnexts fuel calls inst =
        some ((tokens ++ List.replicate calls (⟨stop.1, stop.2, .unknown⟩ : CToken)).take calls) := by
  induction renders with
  | @done place gap last =>
    intro inst calls before here enough
    obtain ⟨fuel, rfl⟩ := Nat.exists_eq_succ_of_ne_zero (Nat.ne_zero_of_lt enough)
    subst here
    cases calls with
    | zero => rfl
    | succ calls =>
      have ended : (inst.past gap).ahead = [] :=
        CLexer.ahead_past gap (before.trans (List.append_nil _).symm)
      rw [cTnexts, cTnext_lastGap last before enough, Option.bind_some, cTnexts_ended ended,
        List.nil_append, List.take_replicate, Nat.min_self]
      rfl
  | @token place gap type c more rest tokens stop passed lexeme ends _ ih =>
    intro inst calls before here enough
    subst here
    cases calls with
    | zero => rfl
    | succ calls =>
      have ahead : (inst.past gap).ahead = c :: more ++ rest := CLexer.ahead_past gap before
      have first : cTnext fuel inst =
          some (cTnew ((inst.past gap).past [c]) type, (inst.past gap).behind c more) := by
        refine cTnext_gap passed before (Nat.lt_of_succ_lt enough) fun fuel many => ?_
        obtain ⟨fuel, rfl⟩ := Nat.exists_eq_succ_of_ne_zero (Nat.ne_zero_of_lt many)
        exact cTnext_lexeme lexeme ends ahead fuel
      have short : rest.length + 1 < fuel := by
        simp only [List.length_append, List.length_cons] at enough
        omega
      have later := ih calls (CLexer.ahead_behind ahead) (show _ = advances inst.place (gap ++ [c]) by
        rw [advances_append]
        rfl) short
      have one : ∀ last : CToken, (tokens ++ List.replicate (calls + 1) last).take calls =
          (tokens ++ List.replicate calls last).take calls := fun last => by
        rw [List.replicate_succ', ← List.append_assoc]
        exact List.take_append_of_le_length (by simp)
      rw [cTnexts, first, Option.bind_some, later, List.cons_append, List.take_succ_cons, one]
      simp [cTnew, CLexer.past, CLexer.place]

/-- A gap in front of a text that renders something renders the same. -/
theorem Renders.behind {gap rest : List UInt8} (longer : ∀ {next}, CGap next → CGap (gap ++ next))
    (renders : Renders (advances place gap) tokens stop rest) : Renders place tokens stop (gap ++ rest) := by
  generalize start : advances place gap = middle at renders
  cases renders with
  | done last =>
    rw [← start, ← advances_append]
    cases last with
    | gap inner => exact .done (.gap (longer inner))
    | comment inner plain =>
      rw [← List.append_assoc]
      exact .done (.comment (longer inner) plain)
  | @token _ between type c more after tokens _ inner lexeme ends later =>
    have place' : advances middle (between ++ [c]) = advances place (gap ++ between ++ [c]) := by
      rw [← start, ← advances_append, List.append_assoc]
    rw [place'] at later ⊢
    rw [← List.append_assoc]
    exact .token (longer inner) lexeme ends later

/-- A comment up to the first character that ends it, or to the end of the text. -/
theorem comment_cases (text : List UInt8) : ∃ body, (∀ c ∈ body, ¬ EndsComment c) ∧
    (text = body ∨ ∃ stop rest, EndsComment stop ∧ text = body ++ stop :: rest) := by
  induction text with
  | nil => exact ⟨[], by simp, .inl rfl⟩
  | cons c rest ih =>
    by_cases ends : EndsComment c
    · exact ⟨[], by simp, .inr ⟨c, rest, ends, rfl⟩⟩
    · obtain ⟨body, plain, split⟩ := ih
      refine ⟨c :: body, by simpa [ends] using plain, ?_⟩
      rcases split with rfl | ⟨stop, after, stops, rfl⟩
      · exact .inl rfl
      · exact .inr ⟨stop, after, stops, rfl⟩

theorem not_runsOn_pair {c d : UInt8} {more rest : List UInt8} : ¬ RunsOn (c :: d :: more) rest := by
  rintro ⟨e, -, same, -⟩
  cases same

theorem not_runsOn_other {c : UInt8} {rest : List UInt8} (other : rest.head? ≠ some c) :
    ¬ RunsOn [c] rest := by
  rintro ⟨d, -, same, next⟩
  cases same
  exact other next

theorem not_runsOn_alone {c : UInt8} {rest : List UInt8} (slash : c ≠ 47) (plus : c ≠ 43)
    (minus : c ≠ 45) : ¬ RunsOn [c] rest := by
  rintro ⟨d, kind, same, -⟩
  cases same
  simp [slash, plus, minus] at kind

/-- **Every text renders some tokens.** The induction is on its length. -/
theorem renders_exists (place : Int32 × Int32) (text : List UInt8) :
    ∃ tokens stop, Renders place tokens stop text := by
  induction long : text.length using Nat.strong_induction_on generalizing place text with
  | _ length ih =>
    subst long
    have token : ∀ {type c more rest}, Lexeme type (c :: more) → ¬ RunsOn (c :: more) rest →
        text = c :: more ++ rest → ∃ tokens stop, Renders place tokens stop text := by
      rintro type c more rest lexeme ends rfl
      have shorter : rest.length < (c :: more ++ rest).length := by
        rw [List.length_append, List.length_cons]
        omega
      obtain ⟨tokens, stop, renders⟩ := ih rest.length shorter (advances place [c]) rest rfl
      exact ⟨_, _, Renders.token .nil lexeme ends renders⟩
    have behind : ∀ c gap rest, (∀ {next}, CGap next → CGap (c :: gap ++ next)) →
        text = c :: gap ++ rest → ∃ tokens stop, Renders place tokens stop text := by
      rintro c gap rest longer rfl
      have shorter : rest.length < (c :: gap ++ rest).length := by
        rw [List.length_append, List.length_cons]
        omega
      obtain ⟨tokens, stop, renders⟩ := ih rest.length shorter (advances place (c :: gap)) rest rfl
      exact ⟨tokens, stop, renders.behind longer⟩
    cases text with
    | nil => exact ⟨_, _, .done (.gap .nil)⟩
    | cons c rest =>
      by_cases isKnown : c ∈ known
      · simp only [known, singles, List.map_cons, List.map_nil, List.cons_append, List.nil_append,
          List.mem_cons, List.not_mem_nil, or_false] at isKnown
        rcases isKnown with rfl | rfl | rfl | rfl | rfl | rfl | rfl | rfl | rfl | rfl
        · by_cases next : rest.head? = some 47
          · obtain ⟨later, rfl⟩ := List.head?_eq_some_iff.mp next
            obtain ⟨body, plain, rfl | ⟨stop, after, stops, rfl⟩⟩ := comment_cases later
            · exact ⟨_, _, .done (.comment .nil plain)⟩
            · refine behind 47 (47 :: (body ++ [stop])) after (fun {next} inner => ?_) (by simp)
              have commented : CGap (comment body ++ stop :: next) := .comment plain stops inner
              simpa [comment] using commented
          · exact token .division (not_runsOn_other next) rfl
        · exact behind 32 [] rest (fun inner => .blank (.inl rfl) inner) rfl
        · exact behind 9 [] rest (fun inner => .blank (.inr rfl) inner) rfl
        · by_cases next : rest.head? = some 43
          · obtain ⟨later, rfl⟩ := List.head?_eq_some_iff.mp next
            exact token .incrementation not_runsOn_pair rfl
          · exact token .addition (not_runsOn_other next) rfl
        · by_cases next : rest.head? = some 45
          · obtain ⟨later, rfl⟩ := List.head?_eq_some_iff.mp next
            exact token .decrementation not_runsOn_pair rfl
          · exact token .subtraction (not_runsOn_other next) rfl
        all_goals
          exact token (.single (by simp [singles]; rfl)) (not_runsOn_alone (by decide) (by decide)
            (by decide)) rfl
      · refine token (.unknown isKnown) (not_runsOn_alone ?_ ?_ ?_) rfl <;>
          · rintro rfl
            exact isKnown (by decide)

/-- **The lexer is exact.** Every text renders some tokens; and whatever tokens a text renders, any number of
calls of `vd_c__tnext` from its start return, each at its place, these tokens and behind them unknown ones at
the end of the text. -/
theorem tokenizer_exact (text : List UInt8) : (∃ tokens stop, Renders (1, 1) tokens stop text) ∧
    ∀ tokens stop, Renders (1, 1) tokens stop text → ∀ calls,
      cTnexts (text.length + 2) calls (CLexer.start text) =
        some ((tokens ++ List.replicate calls (⟨stop.1, stop.2, .unknown⟩ : CToken)).take calls) :=
  ⟨renders_exists _ text, fun _ _ renders calls =>
    renders.tnexts calls rfl rfl (Nat.lt_succ_self _)⟩

/-- A comment and an increment. -/
example : (cTnexts 13 4 (CLexer.start [47, 47, 42, 10, 9, 43, 43, 43, 97, 40, 47])).map
    (List.map CToken.type) = some [.incrementation, .addition, .unknown, .parenEnter] := by
  decide

end Tokens

end Vaudou
