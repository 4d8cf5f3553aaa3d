/-
**When `vd_snfmt` renders exactly.**

* `snfmt_exact_iff` — the string is the reference rendering exactly on the renderable lists.
* `string_after_integer` — a string behind an integer: the measuring pass has not read the integer, and
  takes it for the string.
-/

import Vaudou.Fmt.Passes

namespace Vaudou

open Vaudou.Memory Vaudou.Text

/-- **`vd_snfmt` renders exactly**: bytes and length of the string are those of the rendering. -/
def SnfmtExact (printed : Nat → List UInt8) (mem : Mem) (a : Arena) (items : List FmtItem) : Prop :=
  ∃ mem' a' s, snfmt (fmtDefLut printed) mem a (itemsFormat items) (itemsArgs items) =
      some (mem', a', s) ∧
    s.len = (itemsRendering items).length ∧ mem'.load s.data s.len = itemsRendering items

/-- The arena has room for the length that the measuring pass returns. -/
def MeasuredRoom (printed : Nat → List UInt8) (mem : Mem) (a : Arena) (items : List FmtItem) : Prop :=
  ∀ state measured, vsnfmt (fmtDefLut printed) 0 0 (itemsFormat items) ⟨mem, itemsArgs items⟩ =
    some (state, measured) → a.Room measured 8

variable {printed : Nat → List UInt8} {mem : Mem} {a : Arena} {items : List FmtItem}
  {low high : Nat}

section Lengths

variable {item : FmtItem}

theorem measure_le_rendering (matching : item.Matches mem low high) :
    item.measure ≤ 21 * item.rendering.length := by
  cases item with
  | text bytes => exact Nat.le_mul_of_pos_left _ (by norm_num)
  | int spec v =>
    have scratch := (IntSpec.Admits.renders matching).scratch
    exact scratch.trans (Nat.le_mul_of_pos_right 21 decimalInt_length_pos)
  | str spec data content =>
    show content.length ≤ 21 * (spec.rendering content).length
    rw [spec.rendering_length]
    exact Nat.le_mul_of_pos_left _ (by norm_num)
  | null => exact Nat.le_mul_of_pos_left _ (by norm_num)

/-- A rendering of less than `2 ^ 32` bytes is measured without a carry. -/
theorem itemsMeasure_le : ∀ {items : List FmtItem}, (∀ item ∈ items, item.Matches mem low high) →
    itemsMeasure items ≤ 21 * (itemsRendering items).length
  | [], _ => le_rfl
  | item :: items, matching => by
    have here := measure_le_rendering (matching item List.mem_cons_self)
    have later := itemsMeasure_le fun other member =>
      matching other (List.mem_cons_of_mem item member)
    rw [itemsMeasure_cons, itemsRendering_cons, List.length_append]
    omega

end Lengths

section Passes

/-- `vd_snfmt` on a list that the measuring pass is defined on: the writing pass, into the arena. -/
theorem snfmt_measured (matching : ∀ item ∈ items, item.Matches mem a.begin a.endAddr)
    (ordered : items.Pairwise fun first second => first.isInt = true → second.isStr = false)
    (room : MeasuredRoom printed mem a items) :
    ∃ p mem' a', p + itemsMeasure items % 2 ^ 64 < 2 ^ 63 ∧
      (∀ item ∈ items, item.Matches mem' p (p + itemsMeasure items % 2 ^ 64)) ∧
      snfmt (fmtDefLut printed) mem a (itemsFormat items) (itemsArgs items) =
        (formatFrom (fmtDefLut printed) p (itemsMeasure items % 2 ^ 64) (itemsFormat items) 0
          ⟨mem', itemsArgs items⟩).bind fun result =>
            some (result.1.mem, a', ⟨p, result.2 % 2 ^ 32⟩) := by
  obtain ⟨args, measured⟩ := measureItems printed 0 matching ordered (by norm_num)
  rw [Nat.zero_add] at measured
  have granted := room _ _ measured
  have fits := granted.fits
  have bounded := granted.bounded
  have nonnull := granted.nonnull
  have zeroed := store_changedWithin mem (a.begin + a.padding 8)
    (List.replicate (itemsMeasure items % 2 ^ 64) 0)
  rw [List.length_replicate] at zeroed
  refine ⟨a.begin + a.padding 8, _,
    { a with begin := a.begin + a.padding 8 + itemsMeasure items % 2 ^ 64 }, by omega, fun item member =>
    (matching item member).narrow zeroed (by omega) fits, ?_⟩
  unfold snfmt
  rw [vsnfmt_eq, measured]
  simp only [Option.bind_eq_bind, Option.bind_some, arenaAlloc_room mem granted]
  rw [if_neg fun null => absurd null.1 (by omega)]
  rfl

/-- A string behind an integer leaves no string. -/
theorem snfmt_none (matching : ∀ item ∈ items, item.Matches mem a.begin a.endAddr)
    (disordered : ¬ items.Pairwise fun first second => first.isInt = true → second.isStr = false) :
    snfmt (fmtDefLut printed) mem a (itemsFormat items) (itemsArgs items) = none := by
  unfold snfmt
  rw [vsnfmt_eq, measureItems_none 0 matching disordered (by norm_num)]
  rfl

/-- **`vd_snfmt` renders exactly the renderable lists.** -/
theorem snfmt_exact_iff (printed : Nat → List UInt8) (mem : Mem) (a : Arena)
    (items : List FmtItem) (matching : ∀ item ∈ items, item.Matches mem a.begin a.endAddr)
    (room : MeasuredRoom printed mem a items) :
    SnfmtExact printed mem a items ↔ Renderable items := by
  constructor
  · rintro ⟨mem', a', s, ran, length, loaded⟩
    have ordered : items.Pairwise fun first second => first.isInt = true → second.isStr = false := by
      by_contra disordered
      rw [snfmt_none matching disordered] at ran
      cases ran
    obtain ⟨p, start, a₁, bounded, ready, wrote⟩ := snfmt_measured matching ordered room
    rw [wrote] at ran
    obtain ⟨result, written, same⟩ := Option.bind_eq_some_iff.mp ran
    have cut : s.len < 2 ^ 32 := by
      rw [← (Prod.mk.inj (Prod.mk.inj (Option.some.inj same)).2).2]
      exact Nat.mod_lt _ (by norm_num)
    have short : (itemsRendering items).length < 2 ^ 32 := length ▸ cut
    refine ⟨ordered, short, fun item member => ?_⟩
    by_contra long
    have whole := itemsMeasure_le matching
    rw [writeItems_long (by omega) ready ⟨item, member, long⟩
      (by rw [Nat.mod_eq_of_lt (by omega), Nat.zero_add])] at written
    cases written
  · rintro ⟨ordered, length, short⟩
    obtain ⟨p, start, a₁, bounded, ready, wrote⟩ := snfmt_measured matching ordered room
    have whole := itemsMeasure_le matching
    rw [writeItems (by omega) ready short
      (by rw [Nat.mod_eq_of_lt (by omega), Nat.zero_add])] at wrote
    refine ⟨_, a₁, _, wrote, ?_, ?_⟩
    · show (0 + (itemsRendering items).length) % 2 ^ 32 = _
      rw [Nat.zero_add, Nat.mod_eq_of_lt length]
    · show (start.store (p + 0) (itemsRendering items)).load p
        ((0 + (itemsRendering items).length) % 2 ^ 32) = _
      rw [Nat.zero_add, Nat.mod_eq_of_lt length, Nat.add_zero]
      exact load_store_same start p (itemsRendering items)

/-- A path, a C string and two integers. -/
def pathThenIntegers : List FmtItem :=
  [.text (ascii "at "), .str .pathu32 200 (ascii "a\\b"), .str .cstr 300 (ascii "ok"), .int .i16 (-1205),
    .null, .int .u64 7]

/-- A memory with a path at 200 and a C string at 300. -/
def twoStrings : Mem := (Mem.store (fun _ => 0) 200 (ascii "a\\b")).store 300 (ascii "ok")

/-- A path, a C string and two integers are rendered. -/
theorem snfmt_exact_iff_path :
    (∀ item ∈ pathThenIntegers, item.Matches twoStrings 1001 2000) ∧
      MeasuredRoom (fun _ => []) twoStrings ⟨1000, 1001, 2000⟩ pathThenIntegers ∧
      (SnfmtExact (fun _ => []) twoStrings ⟨1000, 1001, 2000⟩ pathThenIntegers ↔
        Renderable pathThenIntegers) := by
  have matching : ∀ item ∈ pathThenIntegers, item.Matches twoStrings 1001 2000 := by
    decide +kernel
  have length : (vsnfmt (fmtDefLut fun _ => []) 0 0 (itemsFormat pathThenIntegers)
      ⟨twoStrings, itemsArgs pathThenIntegers⟩).map Prod.snd = some 35 := by
    decide +kernel
  have room : MeasuredRoom (fun _ => []) twoStrings ⟨1000, 1001, 2000⟩ pathThenIntegers := by
    intro state measured ran
    rw [ran] at length
    obtain rfl := Option.some.inj length
    decide
  exact ⟨matching, room, snfmt_exact_iff (fun _ => []) twoStrings ⟨1000, 1001, 2000⟩
    pathThenIntegers matching room⟩

/-- **A string behind an integer** is not rendered. -/
theorem string_after_integer :
    ¬ ∀ (printed : Nat → List UInt8) (mem : Mem) (a : Arena) (items : List FmtItem),
      (∀ item ∈ items, item.Matches mem a.begin a.endAddr) → MeasuredRoom printed mem a items →
        SnfmtExact printed mem a items := by
  intro claimed
  let items : List FmtItem := [.int .i32 7, .str .stru32 200 (ascii "a\\b")]
  have undefined : (vsnfmt (fmtDefLut fun _ => []) 0 0 (itemsFormat items)
      ⟨twoStrings, itemsArgs items⟩).isNone = true := by
    decide +kernel
  obtain ⟨mem', a', s, ran, -⟩ := claimed (fun _ => []) twoStrings ⟨1000, 1000, 2000⟩ items
    (by decide +kernel) fun state measured ran => by
      rw [ran] at undefined
      cases undefined
  unfold snfmt at ran
  rw [Option.isNone_iff_eq_none.mp undefined] at ran
  cases ran

end Passes

end Vaudou
