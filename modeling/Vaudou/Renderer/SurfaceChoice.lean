/-
**The format and the present mode of a swapchain.**

`create_swapchain_image_views_and_framebuffers` goes through what the driver offers, and for each entry through
a table of preferences. It keeps the last entry that is in the table, wherever it stands there.

* `surfaceLoop_last` — what is kept: the last entry of the driver's list that the table has.
* **`surface_choice_iff`** — the format and the mode follow the order of the tables exactly when in the driver's
  lists an entry that the table prefers never stands only in front of one that it does not.
-/

import Mathlib.Tactic.Common

namespace Vaudou

section Preference

variable {α σ : Type} [DecidableEq α] {table available rest : List α} {value : Nat → α → σ} {best : σ}
  {chosen first second : α}

/-- The choice is available and in the table, and nothing in front of it in the table is available; without a
choice, nothing in the table is. -/
def FollowsPreference (table available : List α) : Option α → Prop
  | none => ∀ entry ∈ table, entry ∉ available
  | some chosen => chosen ∈ available ∧ chosen ∈ table ∧
      ∀ entry ∈ table, table.idxOf entry < table.idxOf chosen → entry ∉ available

/-- The loop over the table for one entry `q` of the driver's list, which ends at the first match. -/
def preferenceLoop (q : α) (kept : σ) : List α → σ → σ
  | [], best => best
  | entry :: table, best => if q = entry then kept else preferenceLoop q kept table best

/-- The loop over the driver's list from position `i` on; `value` is what is kept of a match. -/
def surfaceLoop (table : List α) (value : Nat → α → σ) : Nat → List α → σ → σ
  | _, [], best => best
  | i, q :: rest, best => surfaceLoop table value (i + 1) rest (preferenceLoop q (value i q) table best)

/-- The last entry of `available` that the table has. -/
structure LastPreferred (table available : List α) (chosen : α) (before after : List α) : Prop where
  split : available = before ++ chosen :: after
  listed : chosen ∈ table
  last : ∀ entry ∈ after, entry ∉ table

theorem preferenceLoop_eq (q : α) (kept : σ) (table : List α) (best : σ) :
    preferenceLoop q kept table best = if q ∈ table then kept else best := by
  induction table with
  | nil => rfl
  | cons entry table ih =>
    rw [preferenceLoop, ih]
    by_cases same : q = entry
    · rw [if_pos same, if_pos (same ▸ List.mem_cons_self)]
    · rw [if_neg same]
      exact if_congr (List.mem_cons.trans (or_iff_right same)).symm rfl rfl

theorem surfaceLoop_unlisted (i : Nat) (unlisted : ∀ entry ∈ rest, entry ∉ table) :
    surfaceLoop table value i rest best = best := by
  induction rest generalizing i best with
  | nil => rfl
  | cons q rest ih =>
    obtain ⟨here, unlisted⟩ := List.forall_mem_cons.mp unlisted
    rw [surfaceLoop, preferenceLoop_eq, if_neg here, ih (i + 1) unlisted]

/-- What the loop keeps of the last entry that the table has, whatever it held before. -/
theorem surfaceLoop_last {before after : List α} (i : Nat) (last : LastPreferred table rest chosen before after) :
    surfaceLoop table value i rest best = value (i + before.length) chosen := by
  induction before generalizing i best rest with
  | nil =>
    obtain ⟨rfl, listed, unlisted⟩ := last
    rw [List.nil_append, surfaceLoop, surfaceLoop_unlisted (i + 1) unlisted, preferenceLoop_eq, if_pos listed,
      List.length_nil, Nat.add_zero]
  | cons q before ih =>
    obtain ⟨rfl, listed, unlisted⟩ := last
    rw [List.cons_append, surfaceLoop, ih (i + 1) ⟨rfl, listed, unlisted⟩, List.length_cons, Nat.add_right_comm,
      Nat.add_assoc]

theorem lastPreferred_or (table available : List α) :
    (∀ entry ∈ available, entry ∉ table) ∨
      ∃ chosen before after, LastPreferred table available chosen before after := by
  induction available with
  | nil => exact Or.inl fun _ member => absurd member List.not_mem_nil
  | cons q rest ih =>
    rcases ih with unlisted | ⟨chosen, before, after, rfl, listed, unlisted⟩
    · by_cases here : q ∈ table
      · exact Or.inr ⟨q, [], rest, rfl, here, unlisted⟩
      · exact Or.inl (List.forall_mem_cons.mpr ⟨here, unlisted⟩)
    · exact Or.inr ⟨chosen, q :: before, after, rfl, listed, unlisted⟩

/-- Nothing is chosen where nothing in the table is available. -/
theorem follows_none (unlisted : ∀ entry ∈ available, entry ∉ table) : FollowsPreference table available none :=
  fun entry listed member => unlisted entry member listed

omit [DecidableEq α] in
theorem mem_pair {entry : α} (listed : entry ∈ [first, second]) : entry = first ∨ entry = second :=
  (List.mem_cons.mp listed).imp_right List.mem_singleton.mp

/-- Behind every `second` there is a `first` again, where there is a `first` at all. -/
def PreferredBehind (first second : α) (available : List α) : Prop :=
  ∀ before after, available = before ++ second :: after → first ∈ available → first ∈ after

/-- In a table of two entries, the last match has no better one exactly when the better one is behind every
other. -/
theorem follows_last_iff {before after : List α} (apart : first ≠ second)
    (last : LastPreferred [first, second] available chosen before after) :
    FollowsPreference [first, second] available (some chosen) ↔ PreferredBehind first second available := by
  have rank : [first, second].idxOf first < [first, second].idxOf second := by
    rw [List.idxOf_cons_self, List.idxOf_cons, cond_eq_ite, if_neg (by simpa using apart)]
    exact Nat.succ_pos _
  have unlisted : first ∉ after := fun member => last.last first member List.mem_cons_self
  constructor
  · rintro ⟨-, -, best⟩ front back split member
    rcases mem_pair last.listed with rfl | rfl
    · -- the last match is `first`, so no `second` is behind it
      have other : second ∉ after := fun member => last.last second member (by simp)
      rw [last.split] at split
      rcases List.append_eq_append_iff.mp split with ⟨middle, rfl, rest⟩ | ⟨middle, rfl, rest⟩
      · rcases List.cons_eq_append_iff.mp rest with ⟨rfl, rest⟩ | ⟨_, rfl, rfl⟩
        · exact absurd (List.cons.inj rest).1 apart
        · exact absurd (List.mem_append_right _ List.mem_cons_self) other
      · rcases List.cons_eq_append_iff.mp rest with ⟨rfl, rest⟩ | ⟨_, rfl, rfl⟩
        · exact absurd (List.cons.inj rest).1 apart.symm
        · exact List.mem_append_right _ List.mem_cons_self
    · exact absurd member (best first List.mem_cons_self rank)
  · intro behind
    refine ⟨last.split ▸ List.mem_append_right _ List.mem_cons_self, last.listed,
      fun entry listed less member => ?_⟩
    rcases mem_pair last.listed with rfl | rfl
    · rw [List.idxOf_cons_self] at less
      exact Nat.not_lt_zero _ less
    · rcases mem_pair listed with rfl | rfl
      · exact unlisted (behind before after last.split member)
      · exact Nat.lt_irrefl _ less

end Preference

section Choice

/-- `VkSurfaceFormatKHR`; formats and colour spaces are their numbers. -/
structure VkSurfaceFormatKHR where
  format : Nat
  colorSpace : Nat
deriving DecidableEq, Repr

/-- `VK_FORMAT_UNDEFINED`. -/
def formatUndefined : Nat := 0

/-- `VK_COLOR_SPACE_MAX_ENUM_KHR`. -/
def colorSpaceMaxEnum : Nat := 0x7FFFFFFF

/-- `VK_FORMAT_B8G8R8A8_UNORM` with `VK_COLOR_SPACE_SRGB_NONLINEAR_KHR`. -/
def bgraUnormSrgb : VkSurfaceFormatKHR := ⟨44, 0⟩

/-- `VK_FORMAT_R8G8B8A8_UNORM` with `VK_COLOR_SPACE_SRGB_NONLINEAR_KHR`. -/
def rgbaUnormSrgb : VkSurfaceFormatKHR := ⟨37, 0⟩

/-- `Preferred_Surface_Formats`. -/
def preferredSurfaceFormats : List VkSurfaceFormatKHR := [bgraUnormSrgb, rgbaUnormSrgb]

/-- `VK_PRESENT_MODE_MAILBOX_KHR`. -/
def modeMailbox : Nat := 1

/-- `VK_PRESENT_MODE_FIFO_KHR`. -/
def modeFifo : Nat := 2

/-- `Preferred_Present_Modes`. -/
def preferredPresentModes : List Nat := [modeMailbox, modeFifo]

/-- `best_surface_format` after the loops. -/
def bestSurfaceFormat (surface_formats : List VkSurfaceFormatKHR) : VkSurfaceFormatKHR :=
  surfaceLoop preferredSurfaceFormats (fun _ q_surface_format => q_surface_format) 0 surface_formats
    ⟨formatUndefined, colorSpaceMaxEnum⟩

/-- The format that the swapchain is made with; `none` for `abort()`. -/
def surfaceFormat (surface_formats : List VkSurfaceFormatKHR) : Option VkSurfaceFormatKHR :=
  if (bestSurfaceFormat surface_formats).format = formatUndefined then none
  else some (bestSurfaceFormat surface_formats)

/-- `best_present_mode` after the loops: a position in the driver's list, or -1. -/
def bestPresentMode (surface_present_modes : List Nat) : Int :=
  surfaceLoop preferredPresentModes (fun i _ => (i : Int)) 0 surface_present_modes (-1)

/-- The mode that the swapchain is made with; `none` for `abort()`. -/
def presentMode (surface_present_modes : List Nat) : Option Nat :=
  if bestPresentMode surface_present_modes = -1 then none
  else surface_present_modes[(bestPresentMode surface_present_modes).toNat]?

variable {surface_formats : List VkSurfaceFormatKHR} {surface_present_modes : List Nat}

/-- The format is the last one that the table has. -/
theorem surfaceFormat_last {chosen : VkSurfaceFormatKHR} {before after : List VkSurfaceFormatKHR}
    (last : LastPreferred preferredSurfaceFormats surface_formats chosen before after) :
    surfaceFormat surface_formats = some chosen := by
  have best : bestSurfaceFormat surface_formats = chosen := surfaceLoop_last 0 last
  have defined : chosen.format ≠ formatUndefined := by
    rcases mem_pair last.listed with rfl | rfl
    · decide
    · decide
  rw [surfaceFormat, best, if_neg defined]

/-- The mode is the last one that the table has. -/
theorem presentMode_last {chosen : Nat} {before after : List Nat}
    (last : LastPreferred preferredPresentModes surface_present_modes chosen before after) :
    presentMode surface_present_modes = some chosen := by
  have best : bestPresentMode surface_present_modes = ((0 + before.length : Nat) : Int) := surfaceLoop_last 0 last
  rw [presentMode, best, if_neg (by omega), Int.toNat_natCast, Nat.zero_add, last.split,
    List.getElem?_append_right Nat.le.refl, Nat.sub_self]
  rfl

/-- The format follows the table exactly when a B8G8R8A8 is behind every R8G8B8A8, if there is one at all. -/
theorem surfaceFormat_iff :
    FollowsPreference preferredSurfaceFormats surface_formats (surfaceFormat surface_formats) ↔
      PreferredBehind bgraUnormSrgb rgbaUnormSrgb surface_formats := by
  rcases lastPreferred_or preferredSurfaceFormats surface_formats with unlisted | ⟨chosen, before, after, last⟩
  · have best : bestSurfaceFormat surface_formats = ⟨formatUndefined, colorSpaceMaxEnum⟩ :=
      surfaceLoop_unlisted 0 unlisted
    rw [surfaceFormat, best, if_pos rfl]
    exact iff_of_true (follows_none unlisted) fun _ _ _ member =>
      absurd List.mem_cons_self (unlisted bgraUnormSrgb member)
  · rw [surfaceFormat_last last]
    exact follows_last_iff (by decide) last

/-- The mode follows the table exactly when a mailbox mode is behind every fifo mode, if there is one at all. -/
theorem presentMode_iff :
    FollowsPreference preferredPresentModes surface_present_modes (presentMode surface_present_modes) ↔
      PreferredBehind modeMailbox modeFifo surface_present_modes := by
  rcases lastPreferred_or preferredPresentModes surface_present_modes with unlisted | ⟨chosen, before, after, last⟩
  · have best : bestPresentMode surface_present_modes = -1 := surfaceLoop_unlisted 0 unlisted
    rw [presentMode, best, if_pos rfl]
    exact iff_of_true (follows_none unlisted) fun _ _ _ member =>
      absurd List.mem_cons_self (unlisted modeMailbox member)
  · rw [presentMode_last last]
    exact follows_last_iff (by decide) last

/-- **The format and the mode follow the order of the tables** exactly when the driver lists the preferred
entry, where it has it, behind every other one of the table. -/
theorem surface_choice_iff (surface_formats : List VkSurfaceFormatKHR) (surface_present_modes : List Nat) :
    FollowsPreference preferredSurfaceFormats surface_formats (surfaceFormat surface_formats) ∧
        FollowsPreference preferredPresentModes surface_present_modes (presentMode surface_present_modes) ↔
      PreferredBehind bgraUnormSrgb rgbaUnormSrgb surface_formats ∧
        PreferredBehind modeMailbox modeFifo surface_present_modes :=
  and_congr surfaceFormat_iff presentMode_iff

/-- **The preferred format in front of the other one**: the other one is chosen. -/
theorem second_format_chosen :
    surfaceFormat [bgraUnormSrgb, rgbaUnormSrgb] = some rgbaUnormSrgb ∧
    ¬ FollowsPreference preferredSurfaceFormats [bgraUnormSrgb, rgbaUnormSrgb]
      (surfaceFormat [bgraUnormSrgb, rgbaUnormSrgb]) :=
  ⟨rfl, fun follows => follows.2.2 bgraUnormSrgb List.mem_cons_self (by decide) List.mem_cons_self⟩

end Choice

end Vaudou
