/-
**Resized windows, frame by frame.**

`PollSDLEvents` marks the components of the windows that were resized, `RendererCheckWindowComponentSizeChange`
makes the swapchains of the marked ones anew, and `ClearWindowComponentFrameChanges` is to take the marks away at
the end of the frame. It takes away that of the first component only, once for each component.

* `frame_settled_iff` — one frame from components without marks.
* **`resizes_settled_iff`** — in a whole run each window is rebuilt in the frames in which it was resized, and no
  mark outlives its frame, exactly when no window but the first one is ever resized.
-/

import Mathlib.Data.List.Range

namespace Vaudou

/-- `WindowComponent`, as far as resizing goes. -/
structure WindowComponent where
  window_ptr : Nat
  just_resized : Nat
deriving DecidableEq, Repr

/-- What one `SDL_EVENT_WINDOW_RESIZED` does to the components; `resized_window` is the window that
`SDL_GetWindowFromID` finds for it. -/
def markResized (resized_window : Nat) (w : List WindowComponent) : List WindowComponent :=
  w.map fun c => if c.window_ptr = resized_window then { c with just_resized := 1 } else c

/-- The resize events in `PollSDLEvents`. -/
def pollSDLEvents (events : List Nat) (w : List WindowComponent) : List WindowComponent :=
  events.foldl (fun w resized_window => markResized resized_window w) w

/-- The positions at which `RendererCheckWindowComponentSizeChange` does not `continue`: their swapchains are made
anew. -/
def rebuiltPositions (w : List WindowComponent) : List Nat :=
  (List.range w.length).filter fun i => w[i]?.any fun c => c.just_resized ≠ 0

/-- `ClearWindowComponentFrameChanges`. -/
def clearWindowComponentFrameChanges (w : List WindowComponent) : List WindowComponent :=
  -- `w->just_resized = 0` without the position: each turn writes to the first component
  (List.range w.length).foldl (fun w _ => w.modify 0 fun c => { c with just_resized := 0 }) w

/-- A frame: its resize events, the positions that were rebuilt, and the components at its end. -/
structure WindowFrame where
  events : List Nat
  rebuilt : List Nat
  windows : List WindowComponent
deriving DecidableEq, Repr

/-- The three systems of a frame, one after the other. -/
def windowFrame (w : List WindowComponent) (events : List Nat) : WindowFrame :=
  let polled := pollSDLEvents events w
  ⟨events, rebuiltPositions polled, clearWindowComponentFrameChanges polled⟩

/-- The frames of a run, from the resize events of each. -/
def windowFrames (w : List WindowComponent) : List (List Nat) → List WindowFrame
  | [] => []
  | events :: rest =>
    windowFrame w events :: windowFrames (windowFrame w events).windows rest

/-- The components of the windows that were just opened. -/
def openedWindows (windows : List Nat) : List WindowComponent := windows.map fun window => ⟨window, 0⟩

/-- Each window was rebuilt once if it was resized in this frame and not otherwise, and no mark is left. -/
structure WindowFrame.Settled (frame : WindowFrame) : Prop where
  once : frame.rebuilt.Nodup
  own : ∀ (i : Nat) (c : WindowComponent), frame.windows[i]? = some c →
    (i ∈ frame.rebuilt ↔ c.window_ptr ∈ frame.events)
  clear : ∀ c ∈ frame.windows, c.just_resized = 0

section Lemmas

variable {windows events : List Nat} {w : List WindowComponent}

/-- The windows after the events of a frame, if none had a mark before. -/
def polledWindows (windows events : List Nat) : List WindowComponent :=
  windows.map fun window => ⟨window, if window ∈ events then 1 else 0⟩

theorem pollSDLEvents_eq (events : List Nat) (w : List WindowComponent) :
    pollSDLEvents events w =
      w.map fun c => if c.window_ptr ∈ events then { c with just_resized := 1 } else c := by
  induction events generalizing w with
  | nil =>
    have same : (fun c : WindowComponent => if c.window_ptr ∈ ([] : List Nat) then { c with just_resized := 1 }
        else c) = id := by
      funext c
      rw [if_neg List.not_mem_nil, id_eq]
    rw [same, List.map_id]
    rfl
  | cons evt rest ih =>
    have step : pollSDLEvents (evt :: rest) w = pollSDLEvents rest (markResized evt w) := rfl
    rw [step, ih, markResized, List.map_map]
    refine List.map_congr_left fun c _ => ?_
    rw [Function.comp_apply]
    by_cases here : c.window_ptr = evt
    · rw [if_pos here, if_pos (List.mem_cons.mpr (Or.inl here))]
      exact ite_self _
    · rw [if_neg here]
      exact if_congr (List.mem_cons.trans (or_iff_right here)).symm rfl rfl

theorem pollSDLEvents_opened (windows events : List Nat) :
    pollSDLEvents events (openedWindows windows) = polledWindows windows events := by
  rw [pollSDLEvents_eq, openedWindows, polledWindows, List.map_map]
  refine List.map_congr_left fun window _ => ?_
  rw [Function.comp_apply]
  by_cases here : window ∈ events
  · rw [if_pos here, if_pos here]
  · rw [if_neg here, if_neg here]

/-- The frame in terms of the windows that were marked. -/
theorem windowFrame_opened (windows events : List Nat) :
    windowFrame (openedWindows windows) events =
      ⟨events, rebuiltPositions (polledWindows windows events),
        clearWindowComponentFrameChanges (polledWindows windows events)⟩ := by
  rw [← pollSDLEvents_opened]
  rfl

theorem polledWindows_cons (window : Nat) (windows events : List Nat) :
    polledWindows (window :: windows) events =
      ⟨window, if window ∈ events then 1 else 0⟩ :: polledWindows windows events := rfl

theorem clear_cons (c : WindowComponent) (rest : List WindowComponent) :
    clearWindowComponentFrameChanges (c :: rest) = { c with just_resized := 0 } :: rest := by
  have settled : ∀ (turns : List Nat) (c : WindowComponent), c.just_resized = 0 →
      turns.foldl (fun w _ => w.modify 0 fun c : WindowComponent => { c with just_resized := 0 }) (c :: rest) =
        c :: rest := by
    intro turns c clear
    induction turns with
    | nil => rfl
    | cons turn turns ih =>
      have same : { c with just_resized := 0 } = c := by rw [← clear]
      rw [List.foldl_cons, List.modify_zero_cons, same, ih]
  rw [clearWindowComponentFrameChanges, List.length_cons, List.range_succ_eq_map, List.foldl_cons,
    List.modify_zero_cons]
  exact settled _ _ rfl

/-- The positions that are rebuilt are those of the windows that were resized. -/
theorem mem_rebuilt {i window : Nat} (here : windows[i]? = some window) :
    i ∈ rebuiltPositions (polledWindows windows events) ↔ window ∈ events := by
  have there : (polledWindows windows events)[i]? = some ⟨window, if window ∈ events then 1 else 0⟩ := by
    rw [polledWindows, List.getElem?_map, here]
    rfl
  have inside : i < (polledWindows windows events).length := (List.getElem?_eq_some_iff.mp there).1
  rw [rebuiltPositions, List.mem_filter, there, List.mem_range]
  by_cases resized : window ∈ events
  · rw [if_pos resized]
    exact iff_of_true ⟨inside, rfl⟩ resized
  · rw [if_neg resized]
    exact iff_of_false (fun both => Bool.false_ne_true both.2) resized

theorem polledWindows_unmarked (unmarked : ∀ window ∈ windows, window ∉ events) :
    polledWindows windows events = openedWindows windows :=
  List.map_congr_left fun window member => by rw [if_neg (unmarked window member)]

/-- The components at the end of the frame, if none but the first window is resized. -/
theorem windowFrame_windows (first : ∀ window ∈ windows.tail, window ∉ events) :
    (windowFrame (openedWindows windows) events).windows = openedWindows windows := by
  rw [windowFrame_opened]
  cases windows with
  | nil => rfl
  | cons window rest =>
    have others : polledWindows rest events = openedWindows rest := polledWindows_unmarked first
    rw [polledWindows_cons, clear_cons, others]
    rfl

/-- **One frame** from windows without marks is settled exactly when none but the first one is resized. -/
theorem frame_settled_iff (windows events : List Nat) :
    (windowFrame (openedWindows windows) events).Settled ↔ ∀ window ∈ windows.tail, window ∉ events := by
  constructor
  · intro settled
    cases windows with
    | nil => exact List.forall_mem_nil _
    | cons first rest =>
      intro window member resized
      have marked : (⟨window, 1⟩ : WindowComponent) ∈
          (windowFrame (openedWindows (first :: rest)) events).windows := by
        rw [windowFrame_opened, polledWindows_cons, clear_cons]
        refine List.mem_cons_of_mem _ (List.mem_map.mpr ⟨window, member, ?_⟩)
        rw [if_pos resized]
      exact Nat.one_ne_zero (settled.clear _ marked)
  · intro first
    have ends := windowFrame_windows first
    refine ⟨?_, fun i c here => ?_, fun c member => ?_⟩
    · rw [windowFrame_opened]
      exact List.nodup_range.filter _
    · rw [ends, openedWindows, List.getElem?_map] at here
      obtain ⟨window, there, rfl⟩ := Option.map_eq_some_iff.mp here
      rw [windowFrame_opened]
      exact mem_rebuilt there
    · rw [ends] at member
      obtain ⟨window, -, rfl⟩ := List.mem_map.mp member
      rfl

end Lemmas

/-- **Every frame of the run is settled** exactly when no window but the first one is ever resized. -/
theorem resizes_settled_iff (windows : List Nat) (events : List (List Nat)) :
    (∀ frame ∈ windowFrames (openedWindows windows) events, frame.Settled) ↔
      ∀ resized ∈ events, ∀ window ∈ windows.tail, window ∉ resized := by
  induction events with
  | nil => exact iff_of_true (List.forall_mem_nil _) (List.forall_mem_nil _)
  | cons resized rest ih =>
    rw [windowFrames, List.forall_mem_cons, List.forall_mem_cons, frame_settled_iff]
    refine and_congr_right fun first => ?_
    rw [windowFrame_windows first]
    exact ih

/-- **The second of two windows is resized once**: it is rebuilt again in the next frame. -/
theorem second_window_rebuilt :
    (windowFrames (openedWindows [5, 6]) [[6], []]).map (·.rebuilt) = [[1], [1]] ∧
    ¬ ∀ frame ∈ windowFrames (openedWindows [5, 6]) [[6], []], frame.Settled := by
  refine ⟨by decide, fun settled => ?_⟩
  have later : (⟨[], [1], [⟨5, 0⟩, ⟨6, 1⟩]⟩ : WindowFrame) ∈ windowFrames (openedWindows [5, 6]) [[6], []] := by
    decide
  exact absurd ((settled _ later).clear ⟨6, 1⟩ (by decide)) (by decide)

end Vaudou
