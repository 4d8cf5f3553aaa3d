/-
**The surfaces of windows.**

A window's surface component records a surface, a swapchain with its image views, and two textures. It
is created when the window component is set, torn down and created again in a frame in which the window
was resized, and torn down by the callback for the immediate destruction of the window. The teardown of a
resize leaves out one of the resources, the view of the depth texture.

* `teardown_sound`, `create_sound` — what is destroyed, what is recorded and what is lost.
* `windowSurface_balanced` — everything created for a window is destroyed exactly once, exactly when the
  window is never resized.

Of the component, the fields that hold none of these resources are left out (the format, the extent, the
images of the swapchain, the data of the frames and the render list).
-/

import Mathlib.Data.List.Flatten
import Vaudou.Foundation.Resources
import Vaudou.Foundation.Run
import Vaudou.Renderer.Types

namespace Vaudou

open Vaudou.Resources Vaudou.Run

/-- `WindowSurfaceComponent`. -/
structure WindowSurface where
  surface : Nat
  swapchain : Nat
  image_views : List Nat
  color_image : Texture
  depth_image : Texture
deriving DecidableEq, Repr

/-- The resources recorded in the component: `create_surface` makes the first, and
`create_swapchain_image_views_and_framebuffers` the others. -/
def WindowSurface.resources (ws : WindowSurface) : List GPUResource :=
  .surface ws.surface :: .swapchain ws.swapchain :: ws.image_views.map .imageView ++
  [.texture ws.color_image.image ws.color_image.allocation, .imageView ws.color_image.view,
    .texture ws.depth_image.image ws.depth_image.allocation, .imageView ws.depth_image.view]

/-- The destroy calls of `RendererCheckWindowComponentSizeChange`. -/
def WindowSurface.resizeDestroys (ws : WindowSurface) : List GPUResource :=
  -- there is no `vkDestroyImageView(renderer->device, ws->depth_image.view, 0)`
  [.imageView ws.color_image.view, .texture ws.color_image.image ws.color_image.allocation,
    .texture ws.depth_image.image ws.depth_image.allocation] ++
  ws.image_views.map .imageView ++ [.swapchain ws.swapchain, .surface ws.surface]

/-- The destroy calls of `on_window_component_immediate_destroy`. -/
def WindowSurface.immediateDestroys (ws : WindowSurface) : List GPUResource :=
  [.imageView ws.color_image.view, .imageView ws.depth_image.view,
    .texture ws.color_image.image ws.color_image.allocation,
    .texture ws.depth_image.image ws.depth_image.allocation] ++
  ws.image_views.map .imageView ++ [.swapchain ws.swapchain, .surface ws.surface]

/-- The surface components by window, the resources created so far with the window that they were created
for, and the resources destroyed. -/
structure WindowSystem where
  surfaces : List (Nat × WindowSurface)
  made : List (Nat × GPUResource)
  destroyed : List GPUResource
deriving DecidableEq, Repr

namespace WindowSystem

/-- No window yet. -/
def empty : WindowSystem := ⟨[], [], []⟩

/-- `ecs_get(world, window, WindowSurfaceComponent)`. -/
def component (s : WindowSystem) (window : Nat) : Option WindowSurface := s.surfaces.lookup window

/-- What was created and destroyed. -/
def ledger (s : WindowSystem) : Ledger GPUResource := ⟨s.made.map Prod.snd, s.destroyed⟩

/-- A surface with all that belongs to it is created and recorded; `none` for a handle that is not
fresh. -/
def create (s : WindowSystem) (window : Nat) (vk : WindowSurface) : Option WindowSystem :=
  if s.ledger.Fresh vk.resources then
    some { s with
      surfaces := (window, vk) :: s.surfaces
      made := s.made ++ vk.resources.map fun r => (window, r) }
  else none

/-- The component is taken from the window, and the resources are destroyed. -/
def teardown (s : WindowSystem) (window : Nat) (gone : List GPUResource) : WindowSystem :=
  { s with
    surfaces := s.surfaces.eraseP fun entry => entry.1 == window
    destroyed := s.destroyed ++ gone }

end WindowSystem

/-- `RendererOnWindowComponentSet`, for one window. -/
def onWindowComponentSet (s : WindowSystem) (window : Nat) (create_surface : Bool) (vk : WindowSurface) :
    Option WindowSystem :=
  if create_surface = false then some s
  else if (s.component window).isSome then some s
  else s.create window vk

/-- `RendererCheckWindowComponentSizeChange`, for one window: the component is replaced. -/
def checkWindowComponentSizeChange (s : WindowSystem) (window : Nat) (just_resized : Bool)
    (vk : WindowSurface) : Option WindowSystem :=
  if just_resized = false then some s
  else (s.component window).bind fun ws => (s.teardown window ws.resizeDestroys).create window vk

/-- `on_window_component_immediate_destroy`; the component goes with its window. -/
def onWindowComponentImmediateDestroy (s : WindowSystem) (window : Nat) : Option WindowSystem :=
  (s.component window).map fun ws => s.teardown window ws.immediateDestroys

/-- What happens to a window, with what the device creates for it. -/
inductive WindowOp where
  | set (window : Nat) (create_surface : Bool) (vk : WindowSurface)
  | frame (window : Nat) (just_resized : Bool) (vk : WindowSurface)
  | immediateDestroy (window : Nat)
deriving DecidableEq, Repr

/-- An operation. -/
def windowStep (s : WindowSystem) : WindowOp → Option WindowSystem
  | .set window create_surface vk => onWindowComponentSet s window create_surface vk
  | .frame window just_resized vk => checkWindowComponentSizeChange s window just_resized vk
  | .immediateDestroy window => onWindowComponentImmediateDestroy s window

/-- **The resources of a window are balanced**: none is destroyed while it is recorded behind any of the
operations, and in the end each was destroyed exactly once. -/
def SurfaceBalanced (ops : List WindowOp) (window : Nat) : Prop :=
  (∀ before after t ws, ops = before ++ after → run windowStep .empty before = some t →
    t.component window = some ws → ∀ r ∈ ws.resources, r ∉ t.destroyed) ∧
  ∀ s, run windowStep .empty ops = some s → ∀ r, (window, r) ∈ s.made → s.destroyed.count r = 1

/-! ### The two teardowns -/

section Teardowns

variable (ws : WindowSurface)

/-- The callback destroys what the component records. -/
theorem immediateDestroys_perm : ws.resources.Perm (ws.immediateDestroys ++ []) := by
  refine List.perm_iff_count.mpr fun r => ?_
  simp only [WindowSurface.resources, WindowSurface.immediateDestroys, List.count_append,
    List.count_cons, List.count_nil, List.cons_append]
  omega

/-- **A resize destroys all but the view of the depth texture.** -/
theorem resizeDestroys_perm :
    ws.resources.Perm (ws.resizeDestroys ++ [.imageView ws.depth_image.view]) := by
  refine List.perm_iff_count.mpr fun r => ?_
  simp only [WindowSurface.resources, WindowSurface.resizeDestroys, List.count_append,
    List.count_cons, List.count_nil, List.cons_append]
  omega

end Teardowns

/-! ### What is recorded, destroyed and lost -/

/-- **Where the resources are**: created ones are recorded in the component of their window, destroyed,
or lost. -/
structure WindowsSound (s : WindowSystem) (lost : List (Nat × GPUResource)) : Prop where
  accounts : s.ledger.Accounts
    (s.surfaces.flatMap (fun entry => entry.2.resources) ++ lost.map Prod.snd)
  owned : ∀ window r, (window, r) ∈ s.made →
    (∃ ws, (window, ws) ∈ s.surfaces ∧ r ∈ ws.resources) ∨ r ∈ s.destroyed ∨ (window, r) ∈ lost
  recorded : ∀ window ws, (window, ws) ∈ s.surfaces → ∀ r ∈ ws.resources, (window, r) ∈ s.made
  lost_made : ∀ entry ∈ lost, entry ∈ s.made

section Sound

variable {s next : WindowSystem} {window : Nat} {ws vk : WindowSurface} {gone left : List GPUResource}
  {lost : List (Nat × GPUResource)}

theorem WindowsSound.empty : WindowsSound .empty [] where
  accounts := Ledger.Accounts.empty
  owned _ _ member := absurd member List.not_mem_nil
  recorded _ _ member := absurd member List.not_mem_nil
  lost_made _ member := absurd member List.not_mem_nil

/-- The component of a window, among the others. -/
theorem component_split (found : s.component window = some ws) :
    s.surfaces.Perm ((window, ws) :: s.surfaces.eraseP fun entry => entry.1 == window) := by
  obtain ⟨before, after, split, apart⟩ := List.lookup_eq_some_iff.mp found
  have skipped : ∀ entry ∈ before, ¬ (entry.1 == window) = true := by
    intro entry member same
    have other := apart entry member
    rw [beq_iff_eq.mp same, bne_self_eq_false] at other
    cases other
  have here : ((window, ws) :: after).eraseP (fun entry => entry.1 == window) = after := by simp
  rw [split, List.eraseP_append_right _ skipped, here]
  exact List.perm_middle

/-- **A teardown** destroys a part of what a component records and loses the rest. -/
theorem teardown_sound (sound : WindowsSound s lost) (found : s.component window = some ws)
    (split : ws.resources.Perm (gone ++ left)) :
    WindowsSound (s.teardown window gone) (lost ++ left.map fun r => (window, r)) := by
  have apart := component_split found
  have kept : ∀ entry ∈ (s.teardown window gone).surfaces, entry ∈ s.surfaces :=
    fun entry member => apart.mem_iff.mpr (List.mem_cons_of_mem _ member)
  constructor
  · refine sound.accounts.destroy ?_
    have untagged : (lost ++ left.map fun r => (window, r)).map Prod.snd = lost.map Prod.snd ++ left :=
      by
      rw [List.map_append, List.map_map]
      exact congrArg _ (List.map_id left)
    rw [untagged]
    refine List.perm_iff_count.mpr fun r => ?_
    have surfaces := (apart.flatMap_right fun entry => entry.2.resources).count_eq r
    have parts := split.count_eq r
    simp only [List.flatMap_cons, List.count_append] at surfaces parts ⊢
    simp only [WindowSystem.teardown]
    omega
  · intro other r made
    rcases sound.owned other r made with ⟨record, member, inside⟩ | destroyed | lost
    · rcases List.mem_cons.mp (apart.mem_iff.mp member) with same | elsewhere
      · obtain ⟨rfl, rfl⟩ := Prod.mk.inj same
        rcases List.mem_append.mp (split.mem_iff.mp inside) with torn | remains
        · exact Or.inr (Or.inl (List.mem_append_right _ torn))
        · exact Or.inr (Or.inr (List.mem_append_right _ (List.mem_map_of_mem remains)))
      · exact Or.inl ⟨record, elsewhere, inside⟩
    · exact Or.inr (Or.inl (List.mem_append_left _ destroyed))
    · exact Or.inr (Or.inr (List.mem_append_left _ lost))
  · intro other record member
    exact sound.recorded other record (kept _ member)
  · intro entry member
    rcases List.mem_append.mp member with before | now
    · exact sound.lost_made entry before
    · obtain ⟨r, remains, rfl⟩ := List.mem_map.mp now
      have here : (window, ws) ∈ s.surfaces := apart.mem_iff.mpr List.mem_cons_self
      exact sound.recorded window ws here r (split.mem_iff.mpr (List.mem_append_right _ remains))

/-- **What is created is recorded.** -/
theorem create_sound (sound : WindowsSound s lost) (created : s.create window vk = some next) :
    WindowsSound next lost := by
  unfold WindowSystem.create at created
  split at created
  · next fresh =>
    cases created
    constructor
    · have ledger : (WindowSystem.ledger { s with
          surfaces := (window, vk) :: s.surfaces
          made := s.made ++ vk.resources.map fun r => (window, r) }) = s.ledger.create vk.resources := by
        simp [WindowSystem.ledger, Ledger.create, Function.comp_def]
      rw [ledger]
      refine (sound.accounts.create fresh).perm ?_
      rw [List.flatMap_cons, List.append_assoc (window, vk).2.resources]
      exact List.perm_append_comm
    · intro other r made
      rcases List.mem_append.mp made with before | now
      · refine (sound.owned other r before).imp_left ?_
        rintro ⟨record, member, inside⟩
        exact ⟨record, List.mem_cons_of_mem _ member, inside⟩
      · obtain ⟨resource, member, same⟩ := List.mem_map.mp now
        obtain ⟨rfl, rfl⟩ := Prod.mk.inj same
        exact Or.inl ⟨vk, List.mem_cons_self, member⟩
    · intro other record member r inside
      rcases List.mem_cons.mp member with same | before
      · obtain ⟨rfl, rfl⟩ := Prod.mk.inj same
        exact List.mem_append_right _ (List.mem_map_of_mem inside)
      · exact List.mem_append_left _ (sound.recorded other record before r inside)
    · exact fun entry member => List.mem_append_left _ (sound.lost_made entry member)
  · cases created

/-- What an operation loses: the view of the depth texture of a window that was resized. -/
def WindowSystem.loses (s : WindowSystem) : WindowOp → List (Nat × GPUResource)
  | .frame window just_resized _ => if just_resized then
      (s.component window).toList.map fun ws => (window, .imageView ws.depth_image.view)
    else []
  | _ => []

/-- **Every operation keeps track of the resources.** -/
theorem windowStep_sound {op : WindowOp} (sound : WindowsSound s lost)
    (stepped : windowStep s op = some next) : WindowsSound next (lost ++ s.loses op) := by
  cases op with
  | set window create_surface vk =>
    have nothing : s.loses (.set window create_surface vk) = [] := rfl
    rw [nothing, List.append_nil]
    simp only [windowStep, onWindowComponentSet] at stepped
    split at stepped
    · cases stepped
      exact sound
    · split at stepped
      · cases stepped
        exact sound
      · exact create_sound sound stepped
  | frame window just_resized vk =>
    cases just_resized with
    | false =>
      cases stepped
      rw [WindowSystem.loses, if_neg Bool.false_ne_true, List.append_nil]
      exact sound
    | true =>
      obtain ⟨ws, found, created⟩ := Option.bind_eq_some_iff.mp stepped
      rw [WindowSystem.loses, if_pos rfl, found]
      exact create_sound (teardown_sound sound found (resizeDestroys_perm ws)) created
  | immediateDestroy window =>
    obtain ⟨ws, found, rfl⟩ := Option.map_eq_some_iff.mp stepped
    exact teardown_sound sound found (immediateDestroys_perm ws)

/-- An operation loses something of a window exactly when the window was resized. -/
theorem loses_iff {op : WindowOp} (stepped : windowStep s op = some next) :
    (∃ r, (window, r) ∈ s.loses op) ↔ ∃ vk, op = .frame window true vk := by
  constructor
  · rintro ⟨r, member⟩
    cases op with
    | frame other just_resized vk =>
      cases just_resized with
      | false => exact absurd member List.not_mem_nil
      | true =>
        obtain ⟨ws, -, same⟩ := List.mem_map.mp member
        obtain ⟨rfl, -⟩ := Prod.mk.inj same
        exact ⟨vk, rfl⟩
    | set other create_surface vk => exact absurd member List.not_mem_nil
    | immediateDestroy other => exact absurd member List.not_mem_nil
  · rintro ⟨vk, rfl⟩
    obtain ⟨ws, found, -⟩ := Option.bind_eq_some_iff.mp stepped
    refine ⟨.imageView ws.depth_image.view, ?_⟩
    rw [WindowSystem.loses, if_pos rfl, found]
    exact List.mem_singleton_self _

/-- **Every run keeps track of the resources**, and loses some of those windows that it resizes. -/
theorem windowRun_sound {ops : List WindowOp} (ran : run windowStep s ops = some next)
    (sound : WindowsSound s lost) :
    ∃ more, WindowsSound next (lost ++ more) ∧
      ∀ window, (∃ r, (window, r) ∈ more) ↔ ∃ vk, .frame window true vk ∈ ops := by
  induction ops generalizing s lost with
  | nil =>
    cases ran
    refine ⟨[], by rwa [List.append_nil], fun window => ?_⟩
    simp
  | cons op rest ih =>
    obtain ⟨middle, stepped, later⟩ := run_cons_some.mp ran
    obtain ⟨more, still, tags⟩ := ih later (windowStep_sound sound stepped)
    refine ⟨s.loses op ++ more, by rwa [← List.append_assoc], fun window => ?_⟩
    simp only [List.mem_append, List.mem_cons, exists_or, loses_iff stepped, tags window, eq_comm]

end Sound

/-- **Everything created for a window is destroyed exactly once, and not while it is recorded, exactly
when no frame finds the window resized.** -/
theorem windowSurface_balanced {ops : List WindowOp} {s : WindowSystem} {window : Nat}
    (ran : run windowStep .empty ops = some s) (destroyed : s.component window = none) :
    SurfaceBalanced ops window ↔ ∀ vk, .frame window true vk ∉ ops := by
  obtain ⟨lost, sound, tags⟩ := windowRun_sound ran WindowsSound.empty
  rw [List.nil_append] at sound
  constructor
  · rintro ⟨-, once⟩ vk resized
    obtain ⟨r, missing⟩ := (tags window).mpr ⟨vk, resized⟩
    have held : r ∈ s.surfaces.flatMap (fun entry => entry.2.resources) ++ lost.map Prod.snd :=
      List.mem_append_right _ (List.mem_map_of_mem missing)
    have never := List.count_eq_zero.mpr (sound.accounts.not_destroyed held)
    have one := once s ran r (sound.lost_made _ missing)
    exact absurd (one.symm.trans never) Nat.one_ne_zero
  · intro never
    constructor
    · intro before after t ws split reached found r inside
      obtain ⟨earlier, soundThen, -⟩ := windowRun_sound reached WindowsSound.empty
      refine soundThen.accounts.not_destroyed (List.mem_append_left _ ?_)
      exact List.mem_flatMap.mpr ⟨(window, ws),
        (component_split found).mem_iff.mpr List.mem_cons_self, inside⟩
    · intro final ranFinal r made
      obtain rfl := Option.some.inj (ran.symm.trans ranFinal)
      rcases sound.owned window r made with ⟨ws, member, -⟩ | gone | missing
      · have absent := List.lookup_eq_none_iff.mp destroyed (window, ws) member
        simp at absent
      · exact sound.accounts.once gone
      · obtain ⟨vk, resized⟩ := (tags window).mp ⟨r, missing⟩
        exact absurd resized (never vk)

/-- A window that is shown for two frames and closed. -/
theorem windowSurface_balanced_shown : SurfaceBalanced
    [.set 1 true ⟨10, 11, [12, 13], ⟨14, 15, 16⟩, ⟨17, 18, 19⟩⟩,
      .frame 1 false ⟨0, 0, [], ⟨0, 0, 0⟩, ⟨0, 0, 0⟩⟩, .frame 1 false ⟨0, 0, [], ⟨0, 0, 0⟩, ⟨0, 0, 0⟩⟩,
      .immediateDestroy 1] 1 := by
  refine (windowSurface_balanced (s := ⟨[], _, _⟩) rfl rfl).mpr fun vk => ?_
  simp

/-- **The view of the depth texture of a resized window** is never destroyed. -/
theorem windowSurface_leaks : ¬ SurfaceBalanced
    [.set 1 true ⟨10, 11, [12, 13], ⟨14, 15, 16⟩, ⟨17, 18, 19⟩⟩,
      .frame 1 true ⟨20, 21, [22, 23], ⟨24, 25, 26⟩, ⟨27, 28, 29⟩⟩, .immediateDestroy 1] 1 := by
  rintro ⟨-, once⟩
  have one := once ⟨[], _, _⟩ rfl (.imageView 18) (by decide)
  revert one
  decide

end Vaudou
