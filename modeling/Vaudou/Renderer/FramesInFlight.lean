/-
**Frames in flight.**

Every window has `r.inflight-frame-count` frames, each with a command buffer, a fence, a semaphore and a
descriptor allocator, and `render_window_surface` takes them in turn: it waits for the fence of the frame,
resets it with the descriptor pools, records the command buffer and submits it with the fence. So while the
next frames are recorded, earlier ones may still be executed. Textures and meshes are uploaded through one
more command buffer and fence, for which `vd_renderer_imm_end` waits at once.

The functions of the renderer run one after the other on the host; between any two calls of theirs the
device completes any of the submitted work. A function is modelled by what it does to the surface
components and by the calls it makes.

* **`frames_in_flight_valid`** — whatever the order of events, no fence, command buffer, semaphore,
  descriptor pool, image or staging buffer is touched while work that uses it is pending.
* **`frames_in_flight_paced`** — when frame `k` is submitted, no frame of the window up to `k - n` is
  pending, for `n` frames in flight.
* **`frames_in_flight_progress`** — the host never waits for what was not submitted.
-/

import Vaudou.Foundation.FencedWork
import Vaudou.Renderer.DescriptorAllocator

namespace Vaudou

open Vaudou.Fenced Vaudou.Float Vaudou.Run

/-- `fnc_render_complete` of a frame of a window, and `imm.fence`. -/
inductive RendererFence where
  | renderComplete (window frame : Nat)
  | imm
deriving DecidableEq, Repr

/-- What pending work uses. -/
inductive FrameResource where
  /-- The command buffer of a frame, with its command pool. -/
  | commandBuffer (window frame : Nat)
  | semImageAvailable (window frame : Nat)
  | descriptorPool (window frame pool : Nat)
  /-- The swapchain of a window with its surface, images and views, and the colour and depth textures. -/
  | windowImages (window : Nat)
  | immCommandBuffer
  | stagingBuffer (buffer : Nat)
deriving DecidableEq, Repr

/-- What is submitted: a frame of a window, with its number, or an upload. -/
inductive Submitted where
  | frame (window number : Nat)
  | upload
deriving DecidableEq, Repr

/-- A call of the renderer. -/
abbrev FrameCall := Call RendererFence FrameResource Submitted

/-- **The fences that guard a resource.** The images of a window are used by all its frames. -/
def frameGuards : FrameResource → RendererFence → Prop
  | .commandBuffer window frame, f => f = .renderComplete window frame
  | .semImageAvailable window frame, f => f = .renderComplete window frame
  | .descriptorPool window frame _, f => f = .renderComplete window frame
  | .windowImages window, f => ∃ frame, f = .renderComplete window frame
  | .immCommandBuffer, f => f = .imm
  | .stagingBuffer _, f => f = .imm

/-- `WindowSurfaceComponent`: the descriptor allocators of the frames, and the counter. -/
structure FrameSurface where
  frame_data : List DescriptorAllocator
  current_frame : Nat

/-- The components by window. -/
abbrev FrameSurfaces := Nat → Option FrameSurface

/-- The pool that a call is about. -/
def PoolCall.pool : PoolCall → Nat
  | .create pool _ _ => pool
  | .allocate pool _ _ _ => pool
  | .reset pool => pool
  | .destroy pool => pool

/-- The pool that a call allocates a set from. -/
def PoolCall.allocates : PoolCall → Option Nat
  | .allocate pool _ _ .success => some pool
  | _ => none

/-- `(u32)(ratio * set_count)`, for a ratio that is a whole number. -/
def wholeRatio (ratio n : Nat) : Nat := roundSignificand (ratio * roundSignificand n) % 2 ^ 32

/-- What `rebuild_frame_data` passes to `vd_descriptor_allocator_init`. -/
def frameAllocatorInfo : DescriptorAllocatorInitInfo where
  initial_sets := 1000
  ratios := [
    -- storage images and buffers, uniform buffers, and images with their sampler
    ⟨3, wholeRatio 3⟩, ⟨7, wholeRatio 3⟩, ⟨6, wholeRatio 3⟩, ⟨1, wholeRatio 4⟩]

/-- `rebuild_frame_data`: the allocators, for the pools that the device creates. -/
def rebuildFrameData (pools : List Nat) : Option (List DescriptorAllocator) :=
  pools.mapM fun pool => descriptorAllocatorInit frameAllocatorInfo pool

/-- What `smat_prep` is given for a render object: the layouts of the two sets, and what the device
answers. -/
structure PreparedObject where
  set0_layout : Nat
  property_layout : Nat
  set0 : AllocateAnswers
  property_set : AllocateAnswers
deriving DecidableEq, Repr

/-- `write_set`, of which this is the allocator's part: a set is allocated; `none` if it is left
uninitialised. -/
def DescriptorAllocator.writeSet (s : DescriptorAllocator) (layout : Nat) (vk : AllocateAnswers) :
    Option DescriptorAllocator :=
  (descriptorAllocatorAllocate s layout 0 vk).bind fun answer => answer.1.map fun _ => answer.2

/-- `smat_prep`: the default set and the property set. -/
def DescriptorAllocator.smatPrep (s : DescriptorAllocator) (ro : PreparedObject) :
    Option DescriptorAllocator :=
  (s.writeSet ro.set0_layout ro.set0).bind fun next => next.writeSet ro.property_layout ro.property_set

/-- The calls of an allocator since it was `before`. -/
def DescriptorAllocator.since (after before : DescriptorAllocator) : List PoolCall :=
  after.calls.drop before.calls.length

/-- The pools of the calls of an allocator. -/
def poolsTouched (window frame : Nat) (calls : List PoolCall) : List FrameResource :=
  calls.map fun c => .descriptorPool window frame c.pool

/-- What a frame is submitted with. -/
def frameJob (window number frame : Nat) (drawn : List PoolCall) :
    Job RendererFence FrameResource Submitted where
  fence := .renderComplete window frame
  uses := .commandBuffer window frame :: .semImageAvailable window frame :: .windowImages window ::
    (drawn.filterMap PoolCall.allocates).map (.descriptorPool window frame)
  waits := [.semImageAvailable window frame]
  label := .frame window number

/-- The calls of `render_window_surface` on the frame that it takes, between which the pools are reset by
`smat_begin_frame` and sets are allocated from them by `smat_prep`. -/
def frameCalls (window number frame : Nat) (begun drawn : List PoolCall) : List FrameCall :=
  .wait (.renderComplete window frame) :: .reset (.renderComplete window frame) ::
  ((poolsTouched window frame begun).map .use ++
  .acquire (.semImageAvailable window frame) :: .use (.commandBuffer window frame) ::
  ((poolsTouched window frame drawn).map .use ++
  [.use (.commandBuffer window frame), .submit (frameJob window number frame drawn)]))

/-- `render_window_surface`: the component, and the calls. -/
def renderWindowSurface (window : Nat) (ws : FrameSurface) (objects : List PreparedObject) :
    Option (FrameSurface × List FrameCall) :=
  let frame := ws.current_frame % ws.frame_data.length
  -- `current_frame` is an `int`
  if 2 ^ 31 - 1 ≤ ws.current_frame then none
  else ws.frame_data[frame]?.bind fun allocator =>
    let begun := descriptorAllocatorClear allocator
    (objects.foldlM DescriptorAllocator.smatPrep begun).map fun drawn =>
      (⟨ws.frame_data.set frame drawn, ws.current_frame + 1⟩,
        frameCalls window ws.current_frame frame (begun.since allocator) (drawn.since begun))

/-- `RendererOnWindowComponentSet`: a window without a surface gets one, with as many frames as pools. -/
def onWindowSet (window : Nat) (pools : List Nat) : Option (FrameSurface × List FrameCall) :=
  (rebuildFrameData pools).map fun frame_data =>
    (⟨frame_data, 0⟩,
      .waitIdle :: ((List.range frame_data.length).map (.renderComplete window)).map .createFence)

/-- `RendererCheckWindowComponentSizeChange`, for a window that was resized: the images are created anew,
and the frames are kept. -/
def onWindowResized (window : Nat) (ws : FrameSurface) : FrameSurface × List FrameCall :=
  ({ ws with current_frame := 0 }, [.waitIdle, .use (.windowImages window)])

/-- What is destroyed with the fence of a frame. -/
def frameParts (window : Nat) (ws : FrameSurface) : List (RendererFence × List FrameResource) :=
  ws.frame_data.zipIdx.map fun entry =>
    (.renderComplete window entry.2,
      .semImageAvailable window entry.2 :: .commandBuffer window entry.2 ::
      poolsTouched window entry.2 ((descriptorAllocatorDeinit entry.1).drop entry.1.calls.length))

/-- `on_window_component_immediate_destroy`: the calls. -/
def immediateDestroyCalls (window : Nat) (ws : FrameSurface) : List FrameCall :=
  .waitIdle :: .use (.windowImages window) ::
  ((frameParts window ws).flatMap (fun part => .destroyFence part.1 :: part.2.map .use) ++
    [.use (.windowImages window)])

/-- An upload between `vd_renderer_imm_begin` and `vd_renderer_imm_end`, with the staging buffer written
before and destroyed behind them. -/
def uploadCalls (staging : Nat) : List FrameCall :=
  [.use (.stagingBuffer staging), .reset .imm, .use .immCommandBuffer,
    .submit ⟨.imm, [.immCommandBuffer, .stagingBuffer staging], [], .upload⟩, .wait .imm,
    .use (.stagingBuffer staging)]

/-- A function of the renderer, with what the device answers. -/
inductive RendererFunction where
  | windowSet (window : Nat) (pools : List Nat)
  | render (window : Nat) (objects : List PreparedObject)
  | resized (window : Nat)
  | immediateDestroy (window : Nat)
  | upload (staging : Nat)
deriving DecidableEq, Repr

/-- **What a function does**: the components, and the calls. -/
def RendererFunction.perform (surfaces : FrameSurfaces) :
    RendererFunction → Option (FrameSurfaces × List FrameCall)
  | .windowSet window pools =>
    match surfaces window with
    | some _ => some (surfaces, [])
    | none => (onWindowSet window pools).map fun done =>
      (Function.update surfaces window (some done.1), done.2)
  | .render window objects => (surfaces window).bind fun ws =>
    (renderWindowSurface window ws objects).map fun done =>
      (Function.update surfaces window (some done.1), done.2)
  | .resized window => (surfaces window).map fun ws =>
    (Function.update surfaces window (some (onWindowResized window ws).1), (onWindowResized window ws).2)
  | .immediateDestroy window => (surfaces window).map fun ws =>
    (Function.update surfaces window none, immediateDestroyCalls window ws)
  | .upload staging => some (surfaces, uploadCalls staging)

/-- The renderer: the components, the device, and the calls that the running function has yet to make. -/
structure FrameSystem where
  surfaces : FrameSurfaces
  device : Device RendererFence FrameResource Submitted
  todo : List FrameCall

/-- No window yet; `imm.fence` is created signaled. -/
def FrameSystem.start : FrameSystem := ⟨fun _ => none, .fresh [.imm], []⟩

/-- An event: a function begins, the running one makes its next call, or work completes. -/
inductive FrameEvent where
  | begin (function : RendererFunction)
  | call
  | complete (k : Nat)
deriving DecidableEq, Repr

/-- **An event.** A function begins when the one before has made all its calls. -/
def frameStep (s : FrameSystem) : FrameEvent → Option FrameSystem
  | .begin function =>
    if s.todo.isEmpty then
      (function.perform s.surfaces).map fun done => { s with surfaces := done.1, todo := done.2 }
    else none
  | .call =>
    match s.todo with
    | [] => none
    | c :: rest => (s.device.call c).map fun device => { s with device := device, todo := rest }
  | .complete k => (s.device.complete k).map fun device => { s with device := device }

/-! ### Between two functions -/

/-- **Between two functions** nothing is known of the frames of the windows, every upload is complete,
and no semaphore is handed out. -/
structure AtRest (surfaces : FrameSurfaces) (v : View RendererFence FrameResource) : Prop where
  imm : v.phase .imm = .idle
  present : ∀ window ws, surfaces window = some ws → ∀ frame < ws.frame_data.length,
    v.phase (.renderComplete window frame) = .inFlight ∨ v.phase (.renderComplete window frame) = .idle
  gone : ∀ window frame, (∀ ws, surfaces window = some ws → ws.frame_data.length ≤ frame) →
    v.phase (.renderComplete window frame) = .absent
  armed : ∀ r, v.armed r = false

section AtRest

variable {surfaces : FrameSurfaces} {v u : View RendererFence FrameResource} {window number frame : Nat}
  {ws : FrameSurface} {begun drawn : List PoolCall}

/-- **The component of one window changes**, and with it the phases of its frames. -/
theorem AtRest.replace (rest : AtRest surfaces v) (component : Option FrameSurface)
    (others : ∀ f, (∀ frame, f ≠ .renderComplete window frame) → u.phase f = v.phase f)
    (present : ∀ ws, component = some ws → ∀ frame < ws.frame_data.length,
      u.phase (.renderComplete window frame) = .inFlight ∨
        u.phase (.renderComplete window frame) = .idle)
    (gone : ∀ frame, (∀ ws, component = some ws → ws.frame_data.length ≤ frame) →
      u.phase (.renderComplete window frame) = .absent)
    (armed : ∀ r, u.armed r = false) : AtRest (Function.update surfaces window component) u where
  imm := (others .imm fun frame => by simp).trans rest.imm
  present other ws found frame inside := by
    by_cases same : other = window
    · subst same
      rw [Function.update_self] at found
      exact present ws found frame inside
    · rw [Function.update_of_ne same] at found
      rw [others _ fun frame => by simp [same]]
      exact rest.present other ws found frame inside
  gone other frame outside := by
    by_cases same : other = window
    · subst same
      rw [Function.update_self] at outside
      exact gone frame outside
    · rw [Function.update_of_ne same] at outside
      exact (others _ fun frame => by simp [same]).trans (rest.gone other frame outside)
  armed := armed

/-- Behind a wait for all work nothing is in flight. -/
theorem settled_ne_inFlight (known : Phase) : known.settled ≠ .inFlight := by
  cases known <;> decide

/-- A wait for all work leaves the renderer at rest. -/
theorem AtRest.settled (rest : AtRest surfaces v) :
    AtRest surfaces { v with phase := fun f => (v.phase f).settled } where
  imm := by
    show (v.phase .imm).settled = .idle
    rw [rest.imm]
    rfl
  present window ws found frame inside := by
    refine Or.inr ?_
    show (v.phase (.renderComplete window frame)).settled = .idle
    rcases rest.present window ws found frame inside with here | here <;> rw [here] <;> rfl
  gone window frame outside := by
    show (v.phase (.renderComplete window frame)).settled = .absent
    rw [rest.gone window frame outside]
    rfl
  armed := rest.armed

/-! ### The functions -/

/-- What only one frame uses is guarded by its fence alone. -/
theorem guarded_by_frame {r : FrameResource} {f : RendererFence}
    (own : r = .commandBuffer window frame ∨ r = .semImageAvailable window frame ∨
      r ∈ poolsTouched window frame drawn) (guard : frameGuards r f) :
    f = .renderComplete window frame := by
  rcases own with rfl | rfl | own
  · exact guard
  · exact guard
  · obtain ⟨c, -, rfl⟩ := List.mem_map.mp own
    exact guard

/-- What a frame is submitted with is guarded by its fence. -/
theorem frameJob_guarded : ∀ r ∈ (frameJob window number frame drawn).uses,
    frameGuards r (.renderComplete window frame) := by
  intro r used
  rcases List.mem_cons.mp used with rfl | used
  · rfl
  rcases List.mem_cons.mp used with rfl | used
  · rfl
  rcases List.mem_cons.mp used with rfl | used
  · exact ⟨frame, rfl⟩
  · obtain ⟨pool, -, rfl⟩ := List.mem_map.mp used
    rfl

/-- **A frame is recorded and submitted**: all its calls are permitted, and only the phase of its fence
changes. -/
theorem frameCalls_follows {Q : View RendererFence FrameResource → Prop}
    (known : v.phase (.renderComplete window frame) = .inFlight ∨
      v.phase (.renderComplete window frame) = .idle)
    (disarmed : ∀ r, v.armed r = false)
    (ends : ∀ u : View RendererFence FrameResource, u.phase (.renderComplete window frame) = .inFlight →
      (∀ f, f ≠ .renderComplete window frame → u.phase f = v.phase f) →
      (∀ r, u.armed r = false) → Q u) :
    v.Follows frameGuards Q (frameCalls window number frame begun drawn) := by
  let f : RendererFence := .renderComplete window frame
  let phase := Function.update (Function.update v.phase f .idle) f .unsignaled
  have unsignaled : phase f = .unsignaled := Function.update_self ..
  have landed : ∀ g, g = f → phase g ≠ .inFlight := by
    rintro g rfl
    rw [unsignaled]
    decide
  refine ⟨known, Or.inl (Function.update_self ..), ?_⟩
  -- the pools are reset
  refine follows_append.mpr (follows_uses (fun r own g guard => ?_) ?_)
  · exact landed g (guarded_by_frame (Or.inr (Or.inr own)) guard)
  refine ⟨⟨disarmed _, fun g guard => landed g guard⟩, fun g guard => landed g guard, ?_⟩
  -- the sets of the objects are allocated
  refine follows_append.mpr (follows_uses (fun r own g guard => ?_) ?_)
  · exact landed g (guarded_by_frame (Or.inr (Or.inr own)) guard)
  refine ⟨fun g guard => landed g guard, ⟨unsignaled, frameJob_guarded, fun r waited => ?_⟩, ?_⟩
  · obtain rfl := List.mem_singleton.mp waited
    exact ⟨List.mem_cons_of_mem _ List.mem_cons_self, Function.update_self ..⟩
  refine ends _ (Function.update_self ..) (fun g other => ?_) fun r => ?_
  · show Function.update phase f .inFlight g = v.phase g
    rw [Function.update_of_ne other]
    exact (Function.update_of_ne other ..).trans (Function.update_of_ne other ..)
  · show (if r ∈ [FrameResource.semImageAvailable window frame] then false
      else Function.update v.armed (.semImageAvailable window frame) true r) = false
    by_cases same : r = .semImageAvailable window frame
    · rw [if_pos (List.mem_singleton.mpr same)]
    · rw [if_neg (fun member => same (List.mem_singleton.mp member)), Function.update_of_ne same,
        disarmed r]

/-- **A window is rendered**: it takes the next of its frames. -/
theorem renderWindowSurface_eq_some {objects : List PreparedObject}
    {done : FrameSurface × List FrameCall}
    (rendered : renderWindowSurface window ws objects = some done) :
    ws.current_frame % ws.frame_data.length < ws.frame_data.length ∧
    done.1.frame_data.length = ws.frame_data.length ∧ done.1.current_frame = ws.current_frame + 1 ∧
    ∃ begun drawn, done.2 = frameCalls window ws.current_frame
      (ws.current_frame % ws.frame_data.length) begun drawn := by
  unfold renderWindowSurface at rendered
  obtain ⟨-, rendered⟩ := Option.ite_none_left_eq_some.mp rendered
  obtain ⟨allocator, at_frame, rendered⟩ := Option.bind_eq_some_iff.mp rendered
  obtain ⟨after, -, rfl⟩ := Option.map_eq_some_iff.mp rendered
  obtain ⟨inside, -⟩ := List.getElem?_eq_some_iff.mp at_frame
  exact ⟨inside, List.length_set, rfl, _, _, rfl⟩

theorem render_follows {objects : List PreparedObject} {done : FrameSurface × List FrameCall}
    (rest : AtRest surfaces v) (found : surfaces window = some ws)
    (rendered : renderWindowSurface window ws objects = some done) :
    v.Follows frameGuards (AtRest (Function.update surfaces window (some done.1))) done.2 := by
  obtain ⟨inside, same, -, begun, drawn, calls⟩ := renderWindowSurface_eq_some rendered
  rw [calls]
  refine frameCalls_follows (rest.present window ws found _ inside) rest.armed ?_
  intro u flying others disarmed
  refine rest.replace (some done.1) (fun f other => others f (other _)) ?_ ?_ disarmed
  · rintro _ ⟨⟩ frame below
    by_cases here : frame = ws.current_frame % ws.frame_data.length
    · exact Or.inl (here ▸ flying)
    · rw [others _ fun equal => here (by injection equal)]
      exact rest.present window ws found frame (same ▸ below)
  · intro frame outside
    have above := outside _ rfl
    rw [others _ fun equal => ?_]
    · refine rest.gone window frame fun other found' => ?_
      obtain rfl := Option.some.inj (found.symm.trans found')
      exact same ▸ above
    · injection equal with _ equal
      omega

/-- **A window gets its surface**: its fences are created. -/
theorem windowSet_follows {pools : List Nat} {done : FrameSurface × List FrameCall}
    (rest : AtRest surfaces v) (fresh : surfaces window = none)
    (created : onWindowSet window pools = some done) :
    v.Follows frameGuards (AtRest (Function.update surfaces window (some done.1))) done.2 := by
  obtain ⟨frame_data, -, rfl⟩ := Option.map_eq_some_iff.mp created
  have settled := rest.settled
  have absent : ∀ frame, (v.phase (.renderComplete window frame)).settled = .absent := fun frame =>
    settled.gone window frame fun ws found => absurd (fresh.symm.trans found) (by simp)
  have among : ∀ frame, RendererFence.renderComplete window frame ∈
      (List.range frame_data.length).map (.renderComplete window) ↔ frame < frame_data.length := by
    simp
  refine ⟨trivial, follows_creates ?_ (fun f member => ?_) ?_⟩
  · exact List.nodup_range.map fun one other equal => by injection equal
  · obtain ⟨frame, -, rfl⟩ := List.mem_map.mp member
    exact absent frame
  refine settled.replace (some ⟨frame_data, 0⟩) (fun f other => if_neg fun member => ?_) ?_ ?_ rest.armed
  · obtain ⟨frame, -, rfl⟩ := List.mem_map.mp member
    exact other frame rfl
  · rintro _ ⟨⟩ frame inside
    exact Or.inr (if_pos ((among frame).mpr inside))
  · intro frame outside
    show (if _ then _ else _) = _
    rw [if_neg fun member => (outside _ rfl).not_gt ((among frame).mp member)]
    exact absent frame

/-- **A window is resized**: its frames are kept. -/
theorem resized_follows (rest : AtRest surfaces v) (found : surfaces window = some ws) :
    v.Follows frameGuards (AtRest (Function.update surfaces window (some (onWindowResized window ws).1)))
      (onWindowResized window ws).2 := by
  have settled := rest.settled
  refine ⟨trivial, fun f _ => settled_ne_inFlight _, ?_⟩
  refine settled.replace _ (fun f _ => rfl) ?_ ?_ rest.armed
  · rintro _ ⟨⟩
    exact settled.present window ws found
  · intro frame outside
    refine settled.gone window frame fun other found' => ?_
    obtain rfl := Option.some.inj (found.symm.trans found')
    exact outside (onWindowResized window ws).1 rfl

/-- The fences of a component. -/
theorem frameParts_fences : (frameParts window ws).map Prod.fst =
    (List.range ws.frame_data.length).map (.renderComplete window) := by
  rw [frameParts, List.map_map, List.range_eq_range', ← List.zipIdx_map_snd 0 ws.frame_data,
    List.map_map]
  rfl

/-- **A window is destroyed** with all its fences. -/
theorem immediateDestroy_follows (rest : AtRest surfaces v) (found : surfaces window = some ws) :
    v.Follows frameGuards (AtRest (Function.update surfaces window none))
      (immediateDestroyCalls window ws) := by
  have settled := rest.settled
  have landed : ∀ f, (v.phase f).settled ≠ .inFlight := fun f => settled_ne_inFlight _
  have among : ∀ f ∈ (frameParts window ws).map Prod.fst,
      ∃ frame < ws.frame_data.length, f = .renderComplete window frame := by
    intro f member
    rw [frameParts_fences] at member
    obtain ⟨frame, inside, rfl⟩ := List.mem_map.mp member
    exact ⟨frame, List.mem_range.mp inside, rfl⟩
  refine ⟨trivial, fun f _ => landed f, follows_append.mpr (follows_teardown ?_ landed ?_ ?_)⟩
  · rw [frameParts_fences]
    exact List.nodup_range.map fun one other equal => by injection equal
  · intro f member
    obtain ⟨frame, inside, rfl⟩ := among f member
    have here := settled.present window ws found frame inside
    exact Or.inl (here.resolve_left (landed _))
  refine ⟨fun f _ => ?_, settled.replace none (fun f other => if_neg fun member => ?_) ?_ ?_ rest.armed⟩
  · show (if _ then _ else _) ≠ _
    split
    · decide
    · exact landed f
  · obtain ⟨frame, -, rfl⟩ := among f member
    exact other frame rfl
  · rintro _ ⟨⟩
  · intro frame _
    show (if _ then _ else _) = _
    split
    · rfl
    · next outside =>
      refine settled.gone window frame fun other found' => ?_
      obtain rfl := Option.some.inj (found.symm.trans found')
      rw [frameParts_fences] at outside
      by_contra inside
      exact outside (List.mem_map_of_mem (List.mem_range.mpr (not_le.mp inside)))

/-- **An upload** leaves nothing in flight. -/
theorem upload_follows {staging : Nat} (rest : AtRest surfaces v) :
    v.Follows frameGuards (AtRest surfaces) (uploadCalls staging) := by
  have idle : ∀ f, f = .imm → v.phase f ≠ .inFlight := by
    rintro f rfl
    rw [rest.imm]
    decide
  let reset := Function.update v.phase .imm .unsignaled
  let flying := Function.update reset .imm .inFlight
  let idleAgain := Function.update flying .imm .idle
  have unsignaled : reset .imm = .unsignaled := Function.update_self ..
  have inFlight : flying .imm = .inFlight := Function.update_self ..
  have same : idleAgain = v.phase := by
    funext f
    by_cases here : f = .imm
    · subst here
      exact (Function.update_self ..).trans rest.imm.symm
    · exact ((Function.update_of_ne here ..).trans (Function.update_of_ne here ..)).trans
        (Function.update_of_ne here ..)
  refine ⟨idle, Or.inl rest.imm, ?_, ⟨unsignaled, ?_, ?_⟩, Or.inl inFlight, fun f guard => ?_, ?_⟩
  · rintro f rfl
    show reset .imm ≠ .inFlight
    rw [unsignaled]
    decide
  · intro r used
    rcases List.mem_cons.mp used with rfl | used
    · rfl
    · obtain rfl := List.mem_singleton.mp used
      rfl
  · intro r waited
    cases waited
  · show idleAgain f ≠ .inFlight
    rw [same]
    exact idle f guard
  · show AtRest surfaces ⟨idleAgain, fun r => if r ∈ [] then false else v.armed r⟩
    rw [same]
    simpa using rest

/-- **Every function is permitted** all of its calls, and leaves the renderer at rest. -/
theorem perform_follows {function : RendererFunction} {done : FrameSurfaces × List FrameCall}
    (rest : AtRest surfaces v) (performed : function.perform surfaces = some done) :
    v.Follows frameGuards (AtRest done.1) done.2 := by
  cases function with
  | windowSet window pools =>
    simp only [RendererFunction.perform] at performed
    split at performed
    · cases performed
      exact rest
    · next fresh =>
      obtain ⟨created, set, rfl⟩ := Option.map_eq_some_iff.mp performed
      exact windowSet_follows rest fresh set
  | render window objects =>
    obtain ⟨ws, found, performed⟩ := Option.bind_eq_some_iff.mp performed
    obtain ⟨rendered, drawn, rfl⟩ := Option.map_eq_some_iff.mp performed
    exact render_follows rest found drawn
  | resized window =>
    obtain ⟨ws, found, rfl⟩ := Option.map_eq_some_iff.mp performed
    exact resized_follows rest found
  | immediateDestroy window =>
    obtain ⟨ws, found, rfl⟩ := Option.map_eq_some_iff.mp performed
    exact immediateDestroy_follows rest found
  | upload staging =>
    cases performed
    exact upload_follows rest

end AtRest

/-! ### The renderer -/

/-- **What the host knows is true of the device**, and permits all calls that the function has yet to
make. -/
def FramesSound (s : FrameSystem) : Prop :=
  ∃ v, Tracks frameGuards v s.device ∧ v.Follows frameGuards (AtRest s.surfaces) s.todo

section Renderer

variable {s s' : FrameSystem} {event : FrameEvent} {events : List FrameEvent} {c : FrameCall}
  {rest : List FrameCall} {function : RendererFunction} {k : Nat}

/-- A function begins. -/
theorem frameStep_begin (stepped : frameStep s (.begin function) = some s') :
    s.todo = [] ∧ ∃ done, function.perform s.surfaces = some done ∧
      s' = { s with surfaces := done.1, todo := done.2 } := by
  obtain ⟨idle, stepped⟩ := Option.ite_none_right_eq_some.mp stepped
  obtain ⟨done, performed, rfl⟩ := Option.map_eq_some_iff.mp stepped
  exact ⟨List.isEmpty_iff.mp idle, done, performed, rfl⟩

/-- The function makes its next call. -/
theorem frameStep_call (stepped : frameStep s .call = some s') :
    ∃ c rest device, s.todo = c :: rest ∧ s.device.call c = some device ∧
      s' = { s with device := device, todo := rest } := by
  simp only [frameStep] at stepped
  split at stepped
  · cases stepped
  · next c rest split =>
    obtain ⟨device, called, rfl⟩ := Option.map_eq_some_iff.mp stepped
    exact ⟨c, rest, device, split, called, rfl⟩

theorem FramesSound.start : FramesSound .start := by
  refine ⟨⟨fun f => if f = .imm then .idle else .absent, fun _ => false⟩, ?_, ?_⟩
  · refine ⟨fun f => ?_, rfl, fun _ member => ?_, fun _ member => ?_, List.nodup_nil⟩
    · by_cases imm : f = .imm
      · subst imm
        exact ⟨rfl, fun _ member => nomatch member⟩
      · show Phase.True _ f (if f = .imm then .idle else .absent)
        rw [if_neg imm]
        exact ⟨if_neg fun member => imm (List.mem_singleton.mp member), fun _ member => nomatch member⟩
    · cases member
    · cases member
  · exact ⟨rfl, fun _ _ found => (by cases found), fun _ _ _ => rfl, fun _ => rfl⟩

/-- **Every event keeps what the host knows true.** -/
theorem frameStep_sound (s : FrameSystem) (event : FrameEvent) (s' : FrameSystem)
    (sound : FramesSound s) (stepped : frameStep s event = some s') : FramesSound s' := by
  obtain ⟨v, tracks, follows⟩ := sound
  cases event with
  | begin function =>
    obtain ⟨idle, done, performed, rfl⟩ := frameStep_begin stepped
    rw [idle] at follows
    exact ⟨v, tracks, perform_follows follows performed⟩
  | call =>
    obtain ⟨c, rest, device, split, called, rfl⟩ := frameStep_call stepped
    rw [split] at follows
    exact ⟨v.after c, tracks.call follows.1 called, follows.2⟩
  | complete k =>
    obtain ⟨device, completed, rfl⟩ := Option.map_eq_some_iff.mp stepped
    exact ⟨v, tracks.complete completed, follows⟩

theorem framesSound_of_run (ran : run frameStep .start events = some s) : FramesSound s :=
  run_invariant frameStep_sound ran FramesSound.start

/-- While work completes, the host stands still. -/
theorem completions_keep : ∀ {ks : List Nat} {t t' : FrameSystem},
    run frameStep t (ks.map .complete) = some t' → t'.todo = t.todo
  | [], _, _, ran => by
    cases ran
    rfl
  | k :: ks, t, t', ran => by
    obtain ⟨next, stepped, later⟩ := run_cons_some.mp ran
    obtain ⟨device, -, rfl⟩ := Option.map_eq_some_iff.mp stepped
    have kept := completions_keep later
    exact kept

/-- **The host never waits for what was not submitted.** While work completes, in any order, the next call
is made at the latest when the work with the fence that it waits for is complete, or all work if it waits
for the device. -/
theorem frames_in_flight_progress {ks : List Nat} (ran : run frameStep .start events = some s)
    (completed : run frameStep s (ks.map .complete) = some s') (next : s.todo = c :: rest)
    (signaled : ∀ f, c = .wait f → ∀ job ∈ s'.device.pending, job.fence ≠ f)
    (idle : c = .waitIdle → s'.device.pending = []) : (frameStep s' .call).isSome := by
  have ran' : run frameStep .start (events ++ ks.map .complete) = some s' :=
    run_append_some.mpr ⟨s, ran, completed⟩
  obtain ⟨v, tracks, follows⟩ := framesSound_of_run ran'
  have todo : s'.todo = c :: rest := (completions_keep completed).trans next
  rw [todo] at follows
  have called := tracks.call_isSome follows.1 signaled idle
  obtain ⟨device, called⟩ := Option.isSome_iff_exists.mp called
  simp only [frameStep, todo, called, Option.map_some, Option.isSome_some]

/-- The host waits for an upload, and goes on when it is complete. -/
theorem frames_in_flight_progress_upload : ∃ s s' rest,
    run frameStep .start (.begin (.upload 9) :: List.replicate 4 .call) = some s ∧
    s.todo = .wait .imm :: rest ∧ (frameStep s .call).isNone ∧
    run frameStep s ([0].map .complete) = some s' ∧ (frameStep s' .call).isSome :=
  ⟨_, _, _, rfl, rfl, rfl, rfl, @frames_in_flight_progress _ _
    (.begin (.upload 9) :: List.replicate 4 .call) _ _ [0] rfl rfl rfl
    (fun _ _ _ member => nomatch member) fun _ => rfl⟩

end Renderer

/-! ### How many frames are in flight -/

/-- A frame of the window. -/
def Submitted.of (window : Nat) : Submitted → Bool
  | .frame other _ => other = window
  | .upload => false

/-- The running function still waits for the work. -/
def Awaited (s : FrameSystem) (f : RendererFence) : Prop := .wait f ∈ s.todo ∨ .waitIdle ∈ s.todo

/-- **A frame of a window is one of the last**, and has the fence that it took in its turn. -/
def Recent (s : FrameSystem) (f : RendererFence) (window number : Nat) : Prop :=
  ∃ ws, s.surfaces window = some ws ∧ number < ws.current_frame ∧
    ws.current_frame ≤ number + ws.frame_data.length ∧
    f = .renderComplete window (number % ws.frame_data.length)

/-- **Every pending frame is recent** or is waited for, and every frame that is yet to be submitted is the
current one. -/
structure FramesPaced (s : FrameSystem) : Prop where
  pending : ∀ job ∈ s.device.pending, ∀ window number, job.label = .frame window number →
    Awaited s job.fence ∨ Recent s job.fence window number
  submits : ∀ job, .submit job ∈ s.todo → ∀ window number, job.label = .frame window number →
    Recent s job.fence window number

section Pacing

variable {s s' : FrameSystem} {events : List FrameEvent} {window number : Nat} {ws : FrameSurface}
  {function : RendererFunction} {done : FrameSurfaces × List FrameCall}

/-- The only frame that a rendering submits. -/
theorem submit_mem_frameCalls {frame : Nat} {begun drawn : List PoolCall}
    {job : Job RendererFence FrameResource Submitted}
    (member : .submit job ∈ frameCalls window number frame begun drawn) :
    job = frameJob window number frame drawn := by
  simpa [frameCalls] using member

/-- **A function waits** for all work, or for the frame that it takes, or submits no frame. -/
theorem perform_cases (performed : function.perform s.surfaces = some done) :
    .waitIdle ∈ done.2 ∧ (∀ job, .submit job ∉ done.2) ∨
    done.1 = s.surfaces ∧ (∀ job, .submit job ∈ done.2 → job.label = .upload) ∨
    ∃ window ws ws' begun drawn, s.surfaces window = some ws ∧
      done.1 = Function.update s.surfaces window (some ws') ∧
      ws.current_frame % ws.frame_data.length < ws.frame_data.length ∧
      ws'.frame_data.length = ws.frame_data.length ∧ ws'.current_frame = ws.current_frame + 1 ∧
      done.2 = frameCalls window ws.current_frame (ws.current_frame % ws.frame_data.length)
        begun drawn := by
  cases function with
  | windowSet window pools =>
    simp only [RendererFunction.perform] at performed
    split at performed
    · cases performed
      exact Or.inr (Or.inl ⟨rfl, fun _ member => by cases member⟩)
    · obtain ⟨created, set, rfl⟩ := Option.map_eq_some_iff.mp performed
      obtain ⟨frame_data, -, rfl⟩ := Option.map_eq_some_iff.mp set
      exact Or.inl ⟨List.mem_cons_self, fun job => by simp⟩
  | render window objects =>
    obtain ⟨ws, found, performed⟩ := Option.bind_eq_some_iff.mp performed
    obtain ⟨rendered, drawn, rfl⟩ := Option.map_eq_some_iff.mp performed
    obtain ⟨inside, same, counted, begun, drawn, calls⟩ := renderWindowSurface_eq_some drawn
    exact Or.inr (Or.inr ⟨window, ws, _, begun, drawn, found, rfl, inside, same, counted, calls⟩)
  | resized window =>
    obtain ⟨ws, found, rfl⟩ := Option.map_eq_some_iff.mp performed
    exact Or.inl ⟨List.mem_cons_self, fun job => by simp [onWindowResized]⟩
  | immediateDestroy window =>
    obtain ⟨ws, found, rfl⟩ := Option.map_eq_some_iff.mp performed
    exact Or.inl ⟨List.mem_cons_self, fun job => by simp [immediateDestroyCalls]⟩
  | upload staging =>
    cases performed
    exact Or.inr (Or.inl ⟨rfl, fun job member => by
      simp only [uploadCalls, List.mem_cons, Call.submit.injEq, reduceCtorEq, List.not_mem_nil,
        false_or, or_false] at member
      rw [member]⟩)

/-- **A function begins** while every pending frame is recent. -/
theorem FramesPaced.begin (paced : FramesPaced s) (idle : s.todo = [])
    (performed : function.perform s.surfaces = some done) :
    FramesPaced { s with surfaces := done.1, todo := done.2 } := by
  have recent : ∀ job ∈ s.device.pending, ∀ window number, job.label = .frame window number →
      Recent s job.fence window number := by
    intro job member window number label
    refine (paced.pending job member window number label).resolve_left ?_
    rintro (awaited | awaited) <;> rw [idle] at awaited <;> cases awaited
  rcases perform_cases performed with ⟨waits, none⟩ | ⟨same, uploads⟩ |
    ⟨window, ws, ws', begun, drawn, found, same, inside, frames, counted, calls⟩
  · exact ⟨fun _ _ _ _ _ => Or.inl (Or.inr waits), fun job member => absurd member (none job)⟩
  · refine ⟨fun job member window number label => Or.inr ?_, fun job member window number label => ?_⟩
    · simpa only [Recent, same] using recent job member window number label
    · rw [uploads job member] at label
      cases label
  · constructor
    · intro job member other number label
      obtain ⟨ws₀, found₀, before, near, fence⟩ := recent job member other number label
      by_cases here : other = window
      · subst here
        obtain rfl := Option.some.inj (found.symm.trans found₀)
        by_cases last : ws.current_frame = number + ws.frame_data.length
        · refine Or.inl (Or.inl ?_)
          -- the frame that is taken is the one of `number`, and is waited for
          rw [fence, calls, last, Nat.add_mod_right]
          exact List.mem_cons_self
        · refine Or.inr ⟨ws', ?_, by omega, by omega, by rw [fence, frames]⟩
          exact (congrFun same other).trans (Function.update_self ..)
      · refine Or.inr ⟨ws₀, ?_, before, near, fence⟩
        exact ((congrFun same other).trans (Function.update_of_ne here ..)).trans found₀
    · intro job member other number label
      obtain rfl := submit_mem_frameCalls (calls ▸ member)
      cases label
      refine ⟨ws', (congrFun same window).trans (Function.update_self ..), by omega, by omega, ?_⟩
      rw [frames]
      rfl

/-- **Every event keeps the pace.** -/
theorem frameStep_paced (s : FrameSystem) (event : FrameEvent) (s' : FrameSystem)
    (both : FramesSound s ∧ FramesPaced s) (stepped : frameStep s event = some s') :
    FramesSound s' ∧ FramesPaced s' := by
  refine ⟨frameStep_sound s event s' both.1 stepped, ?_⟩
  obtain ⟨⟨v, tracks, -⟩, paced⟩ := both
  cases event with
  | begin function =>
    obtain ⟨idle, done, performed, rfl⟩ := frameStep_begin stepped
    exact paced.begin idle performed
  | call =>
    obtain ⟨c, rest, device, split, called, rfl⟩ := frameStep_call stepped
    have later : ∀ {c' : FrameCall}, c' ∈ rest → c' ∈ s.todo := fun member =>
      split ▸ List.mem_cons_of_mem c member
    refine ⟨fun job member window number label => ?_, fun job member => paced.submits job (later member)⟩
    rcases Device.call_pending called job member with before | rfl
    · refine (paced.pending job before window number label).imp_left fun awaited => ?_
      rw [Awaited, split, List.mem_cons, List.mem_cons] at awaited
      -- what the host has waited for is not pending
      rcases awaited with (rfl | here) | (rfl | here)
      · exact absurd (Device.waited called) (tracks.pending_unsignaled before)
      · exact Or.inl here
      · rw [Device.waitedIdle called] at before
        cases before
      · exact Or.inr here
    · exact Or.inr (paced.submits job (split ▸ List.mem_cons_self) window number label)
  | complete k =>
    obtain ⟨device, completed, rfl⟩ := Option.map_eq_some_iff.mp stepped
    obtain ⟨job, -, rfl⟩ := Option.map_eq_some_iff.mp completed
    exact ⟨fun other member => paced.pending other (List.mem_of_mem_eraseIdx member), paced.submits⟩

theorem FramesPaced.start : FramesPaced .start where
  pending _ member := by cases member
  submits _ member := by cases member

/-- **Only the last frames of a window are in flight.** Whenever the running function has no wait left to
make (between two functions, and when a frame is submitted): of a window with `n` frames at most `n` are
pending, and every frame up to `n` before the counter is complete. -/
theorem frames_in_flight_paced (ran : run frameStep .start events = some s)
    (waited : ∀ f, .wait f ∉ s.todo) (settled : .waitIdle ∉ s.todo)
    (found : s.surfaces window = some ws) :
    (s.device.pending.filter fun job => job.label.of window).length ≤ ws.frame_data.length ∧
    ∀ job ∈ s.device.pending, ∀ number, job.label = .frame window number →
      number < ws.current_frame ∧ ws.current_frame ≤ number + ws.frame_data.length := by
  obtain ⟨⟨v, tracks, -⟩, paced⟩ :=
    run_invariant frameStep_paced ran ⟨FramesSound.start, FramesPaced.start⟩
  have recent : ∀ job ∈ s.device.pending, ∀ number, job.label = .frame window number →
      number < ws.current_frame ∧ ws.current_frame ≤ number + ws.frame_data.length ∧
      job.fence = .renderComplete window (number % ws.frame_data.length) := by
    intro job member number label
    have either := paced.pending job member window number label
    have awaited : ¬ Awaited s job.fence := not_or.mpr ⟨waited _, settled⟩
    obtain ⟨other, found', before, near, fence⟩ := either.resolve_left awaited
    obtain rfl := Option.some.inj (found.symm.trans found')
    exact ⟨before, near, fence⟩
  refine ⟨?_, fun job member number label => ?_⟩
  · -- they have different fences
    let frames := s.device.pending.filter fun job => job.label.of window
    have apart : (frames.map Job.fence).Nodup :=
      tracks.apart.sublist (List.filter_sublist.map Job.fence)
    have among : frames.map Job.fence ⊆
        (List.range ws.frame_data.length).map (.renderComplete window) := by
      intro f member
      obtain ⟨job, held, rfl⟩ := List.mem_map.mp member
      obtain ⟨pending, own⟩ := List.mem_filter.mp held
      cases label : job.label with
      | upload =>
        rw [label] at own
        cases own
      | frame other number =>
        rw [label] at own
        obtain rfl : other = window := of_decide_eq_true own
        obtain ⟨before, near, fence⟩ := recent job pending number label
        rw [fence]
        exact List.mem_map_of_mem (List.mem_range.mpr (Nat.mod_lt _ (by omega)))
    have few := (List.subperm_of_subset apart among).length_le
    rwa [List.length_map, List.length_map, List.length_range] at few
  · exact ⟨(recent job member number label).1, (recent job member number label).2.1⟩

/-- Of a window with two frames both are in flight. -/
theorem frames_in_flight_paced_two : ∃ s ws,
    run frameStep .start (.begin (.windowSet 3 [100, 101]) :: List.replicate 3 .call ++
      .begin (.render 3 []) :: List.replicate 7 .call ++
      .begin (.render 3 [⟨7, 8, ⟨0, 0, .success, .success, 1⟩, ⟨0, 0, .success, .success, 2⟩⟩]) ::
        List.replicate 9 .call) = some s ∧
    s.surfaces 3 = some ws ∧ s.device.pending.length = 2 ∧
    (s.device.pending.filter fun job => job.label.of 3).length ≤ ws.frame_data.length :=
  ⟨_, _, rfl, rfl, rfl, (@frames_in_flight_paced _
    (.begin (.windowSet 3 [100, 101]) :: List.replicate 3 .call ++
      .begin (.render 3 []) :: List.replicate 7 .call ++
      .begin (.render 3 [⟨7, 8, ⟨0, 0, .success, .success, 1⟩, ⟨0, 0, .success, .success, 2⟩⟩]) ::
        List.replicate 9 .call) _ _ rfl (fun _ member => nomatch member) (fun member => nomatch member)
    rfl).1⟩

end Pacing

end Vaudou
