/-
**The deletion queue.**

Resources that the device may still use are pushed on a queue of their kind, and a flush destroys what
is queued. The flush empties four of the five queues: `allocated_images` keeps its textures, and every
later flush destroys them again. `DestroyedOnce` is what a queue is for; `destroyedOnce_iff` says that a
run has it exactly when no texture is pushed in front of an explicit flush.
-/

import Mathlib.Data.List.Count
import Mathlib.Data.List.Flatten
import Mathlib.Data.List.Nodup
import Mathlib.Data.List.Perm.Basic
import Vaudou.Renderer.Types

namespace Vaudou

/-- `VD_DeletionQueuePipelineAndLayout`. -/
structure PipelineAndLayout where
  pipeline : Nat
  layout : Nat
deriving DecidableEq, Repr

/-- `VD_DeletionQueue`. -/
structure DeletionQueue where
  images : List Nat
  pipeline_and_layouts : List PipelineAndLayout
  meshes : List GPUMesh
  buffers : List Buffer
  allocated_images : List Texture
deriving DecidableEq, Repr

/-- `vd_deletion_queue_init`. -/
def deletionQueueInit : DeletionQueue := ⟨[], [], [], [], []⟩

/-- What is pushed, by the function that pushes it. -/
inductive Push where
  | pipeline_and_layout (pipeline layout : Nat)
  | vkimage (image : Nat)
  | image (image : Texture)
  | gpumesh (mesh : GPUMesh)
  | buffer (buffer : Buffer)
deriving DecidableEq, Repr

/-- `vd_deletion_queue_push_*`. -/
def deletionQueuePush (dq : DeletionQueue) : Push → DeletionQueue
  | .pipeline_and_layout pipeline layout =>
    { dq with pipeline_and_layouts := dq.pipeline_and_layouts ++ [⟨pipeline, layout⟩] }
  | .vkimage image => { dq with images := dq.images ++ [image] }
  | .image image => { dq with allocated_images := dq.allocated_images ++ [image] }
  | .gpumesh mesh => { dq with meshes := dq.meshes ++ [mesh] }
  | .buffer buffer => { dq with buffers := dq.buffers ++ [buffer] }

/-- The destroy calls of `vd_deletion_queue_flush`, in order. -/
def deletionQueueDestroys (dq : DeletionQueue) : List GPUResource :=
  dq.allocated_images.flatMap rendererDestroyTexture ++
  dq.buffers.flatMap rendererDestroyBuffer ++
  dq.meshes.flatMap (fun mesh => rendererDestroyBuffer mesh.index ++ rendererDestroyBuffer mesh.vertex) ++
  dq.pipeline_and_layouts.flatMap (fun pair => [.pipelineLayout pair.layout, .pipeline pair.pipeline]) ++
  dq.images.map .image

/-- `vd_deletion_queue_flush`: the queue behind it. -/
def deletionQueueFlush (dq : DeletionQueue) : DeletionQueue :=
  -- there is no `array_clear(dq->allocated_images)`
  { dq with buffers := [], meshes := [], pipeline_and_layouts := [], images := [] }

/-- An operation on the queue. -/
inductive DeletionOp where
  | push (resource : Push)
  | flush
deriving DecidableEq, Repr

/-- The resources each flush of a run destroys, with the flush of `vd_deletion_queue_deinit` at the
end. -/
def deletionQueueRun (dq : DeletionQueue) : List DeletionOp → List (List GPUResource)
  | [] => [deletionQueueDestroys dq]
  | .push resource :: ops => deletionQueueRun (deletionQueuePush dq resource) ops
  | .flush :: ops => deletionQueueDestroys dq :: deletionQueueRun (deletionQueueFlush dq) ops

/-! ### What the queue is for -/

/-- The resources that are handed over by a push. -/
def Push.resources : Push → List GPUResource
  | .pipeline_and_layout pipeline layout => [.pipeline pipeline, .pipelineLayout layout]
  | .vkimage handle => [.image handle]
  | .image texture => [.imageView texture.view, .texture texture.image texture.allocation]
  | .gpumesh mesh =>
    [.buffer mesh.index.buffer mesh.index.allocation, .buffer mesh.vertex.buffer mesh.vertex.allocation]
  | .buffer queued => [.buffer queued.buffer queued.allocation]

/-- The resources that an operation hands over. -/
def DeletionOp.resources : DeletionOp → List GPUResource
  | .push resource => resource.resources
  | .flush => []

/-- **Every pushed resource is destroyed exactly once**, by the first flush behind its push: `flushes` is
what every flush destroyed, and as many flushes are in front of that one as are in front of the push. -/
def DestroyedOnce (ops : List DeletionOp) (flushes : List (List GPUResource)) : Prop :=
  ∀ before resource after, ops = before ++ .push resource :: after → ∀ r ∈ resource.resources,
    (∃ flush, flushes[before.count .flush]? = some flush ∧ r ∈ flush) ∧ flushes.flatten.count r = 1

/-- No texture is pushed in front of an explicit flush. -/
def TexturesLast (ops : List DeletionOp) : Prop :=
  ∀ before image after, ops = before ++ .push (.image image) :: after → .flush ∉ after

theorem texturesLast_nil : TexturesLast [] := fun before _ _ split =>
  absurd split.symm (List.append_ne_nil_of_right_ne_nil before (List.cons_ne_nil _ _))

theorem texturesLast_cons {op : DeletionOp} {rest : List DeletionOp} :
    TexturesLast (op :: rest) ↔
      (∀ image, op = .push (.image image) → .flush ∉ rest) ∧ TexturesLast rest := by
  constructor
  · intro last
    constructor
    · rintro image rfl
      exact last [] image rest rfl
    · intro before image after split
      exact last (op :: before) image after (by rw [split]; rfl)
  · rintro ⟨here, later⟩ before image after split
    cases before with
    | nil =>
      obtain ⟨rfl, rfl⟩ := List.cons.inj split
      exact here image rfl
    | cons first before =>
      obtain ⟨-, tail⟩ := List.cons.inj split
      exact later before image after tail

/-- What the flushes are to destroy, when `owed` has been pushed since the last one. -/
def owedFlushes (owed : List GPUResource) : List DeletionOp → List (List GPUResource)
  | [] => [owed]
  | .push resource :: ops => owedFlushes (owed ++ resource.resources) ops
  | .flush :: ops => owed :: owedFlushes [] ops

section Owed

variable {owed : List GPUResource} {ops : List DeletionOp} {r : GPUResource}

/-- Everything pushed is owed by some flush. -/
theorem owedFlushes_flatten :
    (owedFlushes owed ops).flatten = owed ++ ops.flatMap DeletionOp.resources := by
  induction ops generalizing owed with
  | nil => simp [owedFlushes]
  | cons op rest ih =>
    cases op with
    | push resource =>
      rw [owedFlushes, ih, List.flatMap_cons, List.append_assoc]
      rfl
    | flush =>
      rw [owedFlushes, List.flatten_cons, ih, List.flatMap_cons]
      rfl

/-- What is owed stays owed by the next flush. -/
theorem owedFlushes_head (ops : List DeletionOp) (member : r ∈ owed) :
    ∃ flush, (owedFlushes owed ops)[0]? = some flush ∧ r ∈ flush := by
  induction ops generalizing owed with
  | nil => exact ⟨owed, rfl, member⟩
  | cons op rest ih =>
    cases op with
    | push resource => exact ih (List.mem_append_left _ member)
    | flush => exact ⟨owed, rfl, member⟩

/-- **A pushed resource is owed by the first flush behind its push.** -/
theorem owedFlushes_first {before after : List DeletionOp} {resource : Push}
    (member : r ∈ resource.resources) :
    ∃ flush, (owedFlushes owed (before ++ .push resource :: after))[before.count .flush]? = some flush ∧
      r ∈ flush := by
  induction before generalizing owed with
  | nil => exact owedFlushes_head after (List.mem_append_right owed member)
  | cons op rest ih =>
    cases op with
    | push other =>
      rw [List.count_cons_of_ne (by simp)]
      exact ih
    | flush =>
      rw [List.count_cons_self]
      exact ih

end Owed

/-! ### One operation -/

section Operations

variable {dq : DeletionQueue} {ops : List DeletionOp} {image : Texture}

/-- **A push adds what it hands over** to what the next flush destroys. -/
theorem deletionQueuePush_destroys (dq : DeletionQueue) (resource : Push) :
    (deletionQueueDestroys (deletionQueuePush dq resource)).Perm
      (deletionQueueDestroys dq ++ resource.resources) := by
  refine List.perm_iff_count.mpr fun r => ?_
  cases resource with
  | pipeline_and_layout pipeline layout =>
    simp only [deletionQueueDestroys, deletionQueuePush, Push.resources, List.flatMap_append,
      List.flatMap_singleton, List.count_append, List.count_cons, List.count_nil]
    omega
  | vkimage handle =>
    simp only [deletionQueueDestroys, deletionQueuePush, Push.resources, List.map_append, List.map_cons,
      List.map_nil, List.count_append]
    omega
  | image texture =>
    simp only [deletionQueueDestroys, deletionQueuePush, Push.resources, rendererDestroyTexture,
      List.flatMap_append, List.flatMap_singleton, List.count_append]
    omega
  | gpumesh mesh =>
    simp only [deletionQueueDestroys, deletionQueuePush, Push.resources, rendererDestroyBuffer,
      List.flatMap_append, List.flatMap_singleton, List.singleton_append, List.count_append]
    omega
  | buffer queued =>
    simp only [deletionQueueDestroys, deletionQueuePush, Push.resources, rendererDestroyBuffer,
      List.flatMap_append, List.flatMap_singleton, List.count_append]
    omega

/-- **A flush leaves the textures**, and they alone are destroyed by the next one. -/
theorem deletionQueueFlush_destroys (dq : DeletionQueue) :
    deletionQueueDestroys (deletionQueueFlush dq) =
      dq.allocated_images.flatMap rendererDestroyTexture := by
  simp [deletionQueueDestroys, deletionQueueFlush]

/-- A push queues a texture only if it is one. -/
theorem deletionQueuePush_images (dq : DeletionQueue) (resource : Push) :
    (deletionQueuePush dq resource).allocated_images = dq.allocated_images ∨
      ∃ image, resource = .image image := by
  cases resource with
  | image texture => exact Or.inr ⟨texture, rfl⟩
  | _ => exact Or.inl rfl

/-- A queued texture is destroyed by the next flush. -/
theorem image_destroyed (member : image ∈ dq.allocated_images) :
    0 < (deletionQueueDestroys dq).count (.imageView image.view) := by
  refine List.count_pos_iff.mpr ?_
  simp only [deletionQueueDestroys, List.append_assoc]
  refine List.mem_append_left _ (List.mem_flatMap.mpr ⟨image, member, ?_⟩)
  exact List.mem_cons_self

/-! ### Runs -/

/-- **A queued texture is destroyed by every flush to come.** -/
theorem image_destroyed_again (member : image ∈ dq.allocated_images) :
    ops.count .flush + 1 ≤ (deletionQueueRun dq ops).flatten.count (.imageView image.view) := by
  have now := image_destroyed member
  induction ops generalizing dq with
  | nil =>
    simp only [deletionQueueRun, List.flatten_cons, List.flatten_nil, List.append_nil, List.count_nil]
    omega
  | cons op rest ih =>
    cases op with
    | push resource =>
      rw [List.count_cons_of_ne (by simp), deletionQueueRun]
      have still : image ∈ (deletionQueuePush dq resource).allocated_images := by
        cases resource with
        | image texture => exact List.mem_append_left _ member
        | _ => exact member
      exact ih still (image_destroyed still)
    | flush =>
      have kept : image ∈ (deletionQueueFlush dq).allocated_images := member
      have later := ih kept (image_destroyed kept)
      rw [List.count_cons_self, deletionQueueRun, List.flatten_cons, List.count_append]
      omega

/-- A texture that is pushed is destroyed by every flush behind the push. -/
theorem pushed_image_destroyed (dq : DeletionQueue) (image : Texture) (before after : List DeletionOp) :
    after.count .flush + 1 ≤
      (deletionQueueRun dq (before ++ .push (.image image) :: after)).flatten.count
        (.imageView image.view) := by
  induction before generalizing dq with
  | nil => exact image_destroyed_again (List.mem_append_right _ List.mem_cons_self)
  | cons op rest ih =>
    cases op with
    | push resource => exact ih _
    | flush =>
      rw [List.cons_append, deletionQueueRun, List.flatten_cons, List.count_append]
      exact Nat.le_trans (ih _) (Nat.le_add_left _ _)

/-- **Every flush destroys what it owes**, as long as a flush finds no texture behind it. -/
theorem deletionQueueRun_owed {dq : DeletionQueue} {owed : List GPUResource} (last : TexturesLast ops)
    (queued : dq.allocated_images ≠ [] → .flush ∉ ops) (owes : (deletionQueueDestroys dq).Perm owed) :
    List.Forall₂ List.Perm (deletionQueueRun dq ops) (owedFlushes owed ops) := by
  induction ops generalizing dq owed with
  | nil => exact List.Forall₂.cons owes List.Forall₂.nil
  | cons op rest ih =>
    obtain ⟨here, later⟩ := texturesLast_cons.mp last
    cases op with
    | push resource =>
      refine ih later ?_ ((deletionQueuePush_destroys dq resource).trans (owes.append_right _))
      intro some
      rcases deletionQueuePush_images dq resource with same | ⟨image, rfl⟩
      · rw [same] at some
        exact fun member => queued some (List.mem_cons_of_mem _ member)
      · exact here image rfl
    | flush =>
      have none : dq.allocated_images = [] := by
        by_contra some
        exact queued some List.mem_cons_self
      refine List.Forall₂.cons owes (ih later (fun some => absurd none some) ?_)
      rw [deletionQueueFlush_destroys, none]
      exact List.Perm.refl []

/-- Batches that are permuted one by one hold the same resources together. -/
theorem flatten_perm {first second : List (List GPUResource)}
    (each : List.Forall₂ List.Perm first second) : first.flatten.Perm second.flatten := by
  induction each with
  | nil => exact List.Perm.refl []
  | cons head _ ih => exact head.append ih

/-- What is in one batch is in the batch at the same place. -/
theorem forall₂_mem {first second : List (List GPUResource)} {k : Nat} {r : GPUResource}
    (each : List.Forall₂ List.Perm first second)
    (member : ∃ batch, second[k]? = some batch ∧ r ∈ batch) :
    ∃ batch, first[k]? = some batch ∧ r ∈ batch := by
  induction each generalizing k with
  | nil => exact member
  | cons head _ ih =>
    cases k with
    | zero =>
      obtain ⟨batch, found, inside⟩ := member
      cases found
      exact ⟨_, rfl, head.mem_iff.mpr inside⟩
    | succ k => exact ih member

end Operations

/-- **The queue destroys every resource exactly once, in the first flush behind its push, exactly when
no texture is pushed in front of an explicit flush.** -/
theorem deletionQueue_destroysOnce (ops : List DeletionOp)
    (distinct : (ops.flatMap DeletionOp.resources).Nodup) :
    DestroyedOnce ops (deletionQueueRun deletionQueueInit ops) ↔ TexturesLast ops := by
  constructor
  · intro once before image after split flushed
    have first := (once before (.image image) after split (.imageView image.view)
      List.mem_cons_self).2
    have again := pushed_image_destroyed deletionQueueInit image before after
    have more := List.count_pos_iff.mpr flushed
    rw [← split] at again
    omega
  · intro last before resource after split r member
    have start : (deletionQueueDestroys deletionQueueInit).Perm [] := List.Perm.refl []
    have owed := deletionQueueRun_owed last (fun some => absurd rfl some) start
    constructor
    · refine forall₂_mem owed ?_
      rw [split]
      exact owedFlushes_first member
    · rw [(flatten_perm owed).count_eq, owedFlushes_flatten, List.nil_append]
      refine List.count_eq_one_of_mem distinct ?_
      rw [split]
      simp only [List.flatMap_append, List.flatMap_cons]
      exact List.mem_append_right _ (List.mem_append_left _ member)

/-- Two frames: a mesh and a pipeline, then a texture after the last explicit flush. -/
theorem deletionQueue_destroysOnce_frames :
    DestroyedOnce
      [.push (.gpumesh ⟨⟨1, 2⟩, ⟨3, 4⟩, 5, 6, 7⟩), .flush, .push (.pipeline_and_layout 8 9),
        .push (.image ⟨10, 11, 12⟩)]
      (deletionQueueRun deletionQueueInit
        [.push (.gpumesh ⟨⟨1, 2⟩, ⟨3, 4⟩, 5, 6, 7⟩), .flush, .push (.pipeline_and_layout 8 9),
          .push (.image ⟨10, 11, 12⟩)]) := by
  refine (deletionQueue_destroysOnce _ (by decide)).mpr ?_
  simp [texturesLast_cons, texturesLast_nil]

/-- **A texture is destroyed by the flush behind its push and again by the next one.** -/
theorem deletionQueue_texture_twice :
    (([.push (.image ⟨1, 2, 3⟩), .flush] : List DeletionOp).flatMap DeletionOp.resources).Nodup ∧
      ¬ DestroyedOnce [.push (.image ⟨1, 2, 3⟩), .flush]
        (deletionQueueRun deletionQueueInit [.push (.image ⟨1, 2, 3⟩), .flush]) := by
  refine ⟨by decide, fun once => ?_⟩
  have first := (once [] (.image ⟨1, 2, 3⟩) [.flush] rfl (.imageView 2) List.mem_cons_self).2
  revert first
  decide

end Vaudou
