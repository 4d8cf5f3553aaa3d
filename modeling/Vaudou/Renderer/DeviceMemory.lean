/-
**Device memory over the life of the renderer.**

Textures, meshes and materials are objects of three handle maps, and the free callback of a map gives back
what its objects hold of one tracked allocator. The windows, the uploads and the uniform buffers of set 0
allocate from it too. An allocation is known by the call that makes it and by the object that it is for.

* `ObjectSystem` — a handle map with the objects in its slots, and where an object keeps an allocation.
* `memoryStep_sound` — after every operation, each allocation is where its owner keeps it.
* **`device_memory_reported`** — in every run that ends with `vd_renderer_deinit` nothing is freed twice or
  unheld, and what is reported as not freed is exactly this: all uniform buffers of all materials ever made,
  the images of the windows that are open, and the buffers of set 0 but one.
* **`device_memory_held`** — nothing is freed early: what an undropped handle leads to holds its allocations.

Views, samplers, layouts, pipelines and shaders are left out, and what clients create and destroy themselves
with `vd_renderer_create_buffer`.
-/

import Vaudou.Renderer.AllocationTracking
import Vaudou.Renderer.Meshes
import Vaudou.Renderer.UniformBuffers

namespace Vaudou

open Vaudou.Memory Vaudou.Ownership Vaudou.Run

/-! ### Objects of a handle map -/

/-- A handle map with its clients, and the objects in its slots. -/
structure ObjectSystem (α : Type) where
  session : Session
  objects : List α

section Systems

variable {α : Type} (E : HandleMapEnv)

/-- `VD_HANDLEMAP_INIT`, with the initial capacity that all systems pass. -/
def ObjectSystem.init (self : Nat) (mem : Mem) : Option (ObjectSystem α) :=
  (handlemapInit E self mem 64).map fun map => ⟨⟨map, []⟩, []⟩

/-- `VD_HANDLEMAP_REGISTER`, counted. -/
def ObjectSystem.register (s : ObjectSystem α) (object : α) (result : E.Value) :
    Option (ObjectSystem α) :=
  (sessionStep E s.session (.register result true)).map fun session => ⟨session, s.objects ++ [object]⟩

/-- `COPY_HANDLE`. -/
def ObjectSystem.copy (s : ObjectSystem α) (token : Nat) : Option (ObjectSystem α) :=
  (sessionStep E s.session (.copy token)).map fun session => { s with session }

/-- `DROP_HANDLE`, and the slots on which the free callback is called. -/
def ObjectSystem.drop (s : ObjectSystem α) (token : Nat) : Option (ObjectSystem α × List Nat) :=
  (sessionStep E s.session (.drop token)).map fun session =>
    ({ s with session }, session.map.freed.drop s.session.map.freed.length)

/-- `USE_HANDLE`: the slot and the object; `none` for a null pointer, which is dereferenced. -/
def ObjectSystem.use (s : ObjectSystem α) (token : Nat) : Option (Nat × α) :=
  (s.session.held token).bind fun handle =>
    (intmapTryget E.intmap s.session.map.idmap handle.id).bind fun found =>
      found.bind fun slot => s.objects[slot]?.map fun object => (slot, object)

/-- `VD_HANDLEMAP_DEINIT`: the slots on which the free callback is called. -/
def ObjectSystem.deinit (s : ObjectSystem α) : List Nat :=
  (handlemapDeinit E s.session.map).freed.drop s.session.map.freed.length

/-- Where the object in a slot keeps a part, as long as it has not been freed. -/
def ObjectSystem.place (s : ObjectSystem α) (part : α → Nat) (slot : Nat) : Option Nat :=
  if slot ∈ s.session.map.freed then none else s.objects[slot]?.map part

/-- The objects are those of the store that the handle map refines. -/
def ObjectSystem.Sound (s : ObjectSystem α) : Prop :=
  ∃ store : Store E.Value, Related E s.session store ∧ s.objects.length = store.objects.length ∧
    ∀ n < store.objects.length, store.counted n = true

end Systems

section SystemLemmas

variable {α : Type} {E : HandleMapEnv} {s s' : ObjectSystem α} {object : α} {part : α → Nat}
  {token slot : Nat} {slots : List Nat}

theorem ObjectSystem.init_sound {self : Nat} {mem : Mem}
    (initial : ObjectSystem.init E self mem = some s) :
    s.Sound E ∧ s.objects = [] ∧ s.session.map.freed = [] := by
  obtain ⟨map, made, rfl⟩ := Option.map_eq_some_iff.mp initial
  have related := related_start (by decide) made
  exact ⟨⟨Store.empty, related, rfl, fun n inside => absurd inside (Nat.not_lt_zero n)⟩, rfl,
    related.freed⟩

/-- Only registered objects are freed. -/
theorem ObjectSystem.Sound.freed_lt (sound : s.Sound E) (freed : slot ∈ s.session.map.freed) :
    slot < s.objects.length := by
  obtain ⟨store, related, length, -⟩ := sound
  rw [related.freed] at freed
  rw [length]
  exact Store.counted_lt ((related.sound.freed slot).mp freed).1

/-- **A registration** puts the object into the next slot. -/
theorem ObjectSystem.register_spec {result : E.Value} (sound : s.Sound E)
    (done : s.register E object result = some s') :
    s'.Sound E ∧ s'.objects = s.objects ++ [object] ∧ s'.session.map.freed = s.session.map.freed := by
  obtain ⟨store, related, length, counted⟩ := sound
  obtain ⟨session, stepped, rfl⟩ := Option.map_eq_some_iff.mp done
  obtain ⟨store', step, related'⟩ := sessionStep_simulates _ _ _ _ related stepped
  cases step
  refine ⟨⟨_, related', ?_, fun n inside => ?_⟩, rfl, related'.freed.trans related.freed.symm⟩
  · rw [List.length_append, List.length_append, length]
    rfl
  · have counts := Store.register_counted store result true n
    show Store.counted ⟨store.objects ++ _, _, _⟩ n = true
    rw [Store.counted] at counts ⊢
    rw [counts]
    split
    · rfl
    · refine counted n ?_
      simp only [List.length_append, List.length_singleton] at inside
      omega

theorem ObjectSystem.copy_spec (sound : s.Sound E) (done : s.copy E token = some s') :
    s'.Sound E ∧ s'.objects = s.objects ∧ s'.session.map.freed = s.session.map.freed := by
  obtain ⟨store, related, length, counted⟩ := sound
  obtain ⟨session, stepped, rfl⟩ := Option.map_eq_some_iff.mp done
  obtain ⟨store', step, related'⟩ := sessionStep_simulates _ _ _ _ related stepped
  obtain ⟨n, -, rfl⟩ := Option.map_eq_some_iff.mp step
  exact ⟨⟨_, related', length, counted⟩, rfl, related'.freed.trans related.freed.symm⟩

/-- **A drop** calls the free callback on slots that were not freed. -/
theorem ObjectSystem.drop_spec (sound : s.Sound E) (done : s.drop E token = some (s', slots)) :
    s'.Sound E ∧ s'.objects = s.objects ∧ s'.session.map.freed = s.session.map.freed ++ slots ∧
      slots.Nodup ∧ ∀ n ∈ slots, n < s.objects.length ∧ n ∉ s.session.map.freed := by
  obtain ⟨store, related, length, counted⟩ := sound
  obtain ⟨session, stepped, same⟩ := Option.map_eq_some_iff.mp done
  obtain ⟨rfl, rfl⟩ := Prod.mk.inj same
  obtain ⟨store', step, related'⟩ := sessionStep_simulates _ _ _ _ related stepped
  have freed := Store.step_freed step
  have objects : store'.objects = store.objects := by
    obtain ⟨n, -, rfl⟩ := Option.map_eq_some_iff.mp step
    rfl
  have sound' : (⟨session, s.objects⟩ : ObjectSystem α).Sound E := by
    refine ⟨store', related', ?_, ?_⟩
    · rw [objects]
      exact length
    · unfold Store.counted
      rw [objects]
      exact counted
  have split : session.map.freed =
      s.session.map.freed ++ session.map.freed.drop s.session.map.freed.length := by
    rw [related'.freed, related.freed, freed, List.drop_left]
  have nodup : session.map.freed.Nodup := by
    rw [related'.freed]
    exact related'.sound.nodup
  rw [split] at nodup
  refine ⟨sound', rfl, split, nodup.of_append_right, fun n member => ⟨?_, fun before => ?_⟩⟩
  · refine sound'.freed_lt (show n ∈ session.map.freed from ?_)
    rw [split]
    exact List.mem_append_right _ member
  · exact List.disjoint_of_nodup_append nodup before member

/-- An undropped handle leads to an object that was not freed. -/
theorem ObjectSystem.use_spec (sound : s.Sound E) (used : s.use E token = some (slot, object)) :
    s.objects[slot]? = some object ∧ slot ∉ s.session.map.freed := by
  obtain ⟨store, related, length, -⟩ := sound
  obtain ⟨handle, held, rest⟩ := Option.bind_eq_some_iff.mp used
  obtain ⟨found, lookup, rest⟩ := Option.bind_eq_some_iff.mp rest
  obtain ⟨n, rfl, rest⟩ := Option.bind_eq_some_iff.mp rest
  obtain ⟨there, here, same⟩ := Option.map_eq_some_iff.mp rest
  obtain ⟨rfl, rfl⟩ := Prod.mk.inj same
  obtain ⟨m, owner, rfl⟩ := related.held_iff.mp held
  obtain ⟨-, -, inside, -⟩ := related.record owner
  obtain rfl := Option.some.inj (Option.some.inj ((related.wf.tryget inside).symm.trans lookup))
  refine ⟨here, ?_⟩
  rw [related.freed]
  exact related.sound.not_freed (Store.owned_mem owner)

/-- **`vd_handlemap__deinit`** calls the free callback once on every slot that was not freed. -/
theorem ObjectSystem.deinit_spec (sound : s.Sound E) : (s.deinit E).Nodup ∧
    ∀ n, n ∈ s.deinit E ↔ n < s.objects.length ∧ n ∉ s.session.map.freed := by
  obtain ⟨store, related, length, -⟩ := sound
  have counts := handlemapDeinit_count related
  have split : (handlemapDeinit E s.session.map).freed = s.session.map.freed ++ s.deinit E := by
    unfold ObjectSystem.deinit handlemapDeinit
    rw [freed_deinitSlots, List.drop_left]
  rw [split] at counts
  have once : ∀ n, s.session.map.freed.count n + (s.deinit E).count n =
      if n < s.objects.length then 1 else 0 := by
    intro n
    rw [← List.count_append, counts, length]
  refine ⟨List.nodup_iff_count_le_one.mpr fun n => ?_, fun n => ?_⟩
  · have := once n
    split at this <;> omega
  · have nodup : s.session.map.freed.Nodup := by
      rw [related.freed]
      exact related.sound.nodup
    have before := List.nodup_iff_count_le_one.mp nodup n
    rw [← List.count_pos_iff, ← List.count_eq_zero]
    have := once n
    split at this <;> omega

theorem ObjectSystem.place_register (sound : s.Sound E) (objects : s'.objects = s.objects ++ [object])
    (freed : s'.session.map.freed = s.session.map.freed) (slot : Nat) :
    s'.place part slot = if slot = s.objects.length then some (part object) else s.place part slot := by
  unfold ObjectSystem.place
  rw [objects, freed]
  by_cases last : slot = s.objects.length
  · subst last
    have live : s.objects.length ∉ s.session.map.freed := fun member =>
      Nat.lt_irrefl _ (sound.freed_lt member)
    rw [if_neg live, if_pos rfl, List.getElem?_concat_length]
    rfl
  · rw [if_neg last]
    rcases Nat.lt_or_ge slot s.objects.length with inside | outside
    · rw [List.getElem?_append_left inside]
    · rw [List.getElem?_eq_none outside, List.getElem?_eq_none]
      rw [List.length_append, List.length_singleton]
      omega

theorem ObjectSystem.place_freed (objects : s'.objects = s.objects)
    (freed : s'.session.map.freed = s.session.map.freed ++ slots) (slot : Nat) :
    s'.place part slot = if slot ∈ slots then none else s.place part slot := by
  unfold ObjectSystem.place
  rw [objects, freed]
  simp only [List.mem_append]
  split_ifs <;> simp_all

theorem ObjectSystem.place_set (inside : slot < s.objects.length) (live : slot ∉ s.session.map.freed)
    (object : α) (other : Nat) :
    ObjectSystem.place { s with objects := s.objects.set slot object } part other =
      if other = slot then some (part object) else s.place part other := by
  unfold ObjectSystem.place
  by_cases same : other = slot
  · subst same
    rw [if_neg live, if_pos rfl, List.getElem?_set_self inside]
    rfl
  · rw [if_neg same, List.getElem?_set_ne (fun equal => same equal.symm)]

theorem ObjectSystem.place_here (here : s.objects[slot]? = some object)
    (live : slot ∉ s.session.map.freed) : s.place part slot = some (part object) := by
  rw [ObjectSystem.place, if_neg live, here]
  rfl

theorem ObjectSystem.place_none (outside : s.objects.length ≤ slot) : s.place part slot = none := by
  rw [ObjectSystem.place, List.getElem?_eq_none outside]
  exact ite_self _

end SystemLemmas

/-! ### What allocates -/

/-- The calls of `svma_create_buffer` and `svma_create_texture`, of which `SVMA_CREATE_TRACKING` records
the file and the line. -/
inductive AllocationSite where
  /-- `vd_texture_system_new` -/
  | texture
  /-- `create_buffers`, the first -/
  | indexBuffer
  /-- `create_buffers`, the second -/
  | vertexBuffer
  /-- `smat_new_from_blueprint` -/
  | uniformBuffer
  /-- `smat_init` -/
  | set0Buffer
  /-- `vd_renderer_create_buffer` -/
  | stagingBuffer
  /-- `create_swapchain_image_views_and_framebuffers`, the first -/
  | colorImage
  /-- `create_swapchain_image_views_and_framebuffers`, the second -/
  | depthImage
deriving DecidableEq, Repr

/-- `AllocationTracking`: the call, and the slot or the window that the allocation is for, which the source
does not record. -/
structure AllocationTracking where
  site : AllocationSite
  owner : Nat
deriving DecidableEq, Repr

/-- The parameters of the three handle maps. -/
structure MemoryEnv where
  textures : HandleMapEnv
  geos : HandleMapEnv
  materials : HandleMapEnv

/-- The three systems. -/
inductive SystemName where
  | textures
  | geos
  | materials
deriving DecidableEq, Repr

/-- `VD_Renderer`, as far as it holds device memory, and the color and depth images of the open windows. -/
structure RendererMemory where
  svma : Svma AllocationTracking
  textures : ObjectSystem Texture
  geos : ObjectSystem GPUMesh
  materials : ObjectSystem GPUMaterial
  set0_buffer : Buffer
  windows : Nat → Option (Texture × Texture)

section Operations

/-- `free_texture`. -/
def Svma.freeTexture (svma : Svma AllocationTracking) (image : Texture) : Svma AllocationTracking :=
  svma.free image.allocation

/-- `free_geo`. -/
def Svma.freeGeo (svma : Svma AllocationTracking) (m : GPUMesh) : Svma AllocationTracking :=
  (svma.free m.index.allocation).free m.vertex.allocation

/-- `free_material`, without the drop of the blueprint. -/
def Svma.freeMaterial (svma : Svma AllocationTracking) (material : GPUMaterial) :
    Svma AllocationTracking :=
  (material.buffers.take material.num_buffers).foldl (fun svma buffer => svma.free buffer.allocation) svma

/-- The free callback, called on slots. -/
def callOnFree {α : Type} (free : Svma AllocationTracking → α → Svma AllocationTracking)
    (objects : List α) (svma : Svma AllocationTracking) (slots : List Nat) : Svma AllocationTracking :=
  slots.foldl (fun svma slot => (objects[slot]?.map (free svma)).getD svma) svma

/-- `create_buffers`, for the mesh in a slot. -/
def Svma.createBuffers (svma : Svma AllocationTracking) (slot : Nat) (info : MeshCreateInfo)
    (vk : MeshAnswers) : Option (GPUMesh × Svma AllocationTracking) :=
  (svma.createBuffer vk.index.allocation ⟨.indexBuffer, slot⟩).bind fun svma =>
    (svma.createBuffer vk.vertex.allocation ⟨.vertexBuffer, slot⟩).map fun svma =>
      (⟨vk.vertex, vk.index, vk.address, info.num_vertices, info.num_indices⟩, svma)

/-- `sgeo_resize`, on the mesh in a slot. -/
def Svma.resizeGeo (svma : Svma AllocationTracking) (slot : Nat) (mesh : GPUMesh) (info : MeshCreateInfo)
    (vk : MeshAnswers) : Option (GPUMesh × Svma AllocationTracking) :=
  if mesh.num_vertices < info.num_vertices ∨ mesh.num_indices < info.num_indices then
    (svma.freeGeo mesh).createBuffers slot info vk
  else some (mesh, svma)

/-- The calls of `svma_create_buffer` in a loop over struct bindings. -/
def Svma.createEach (svma : Svma AllocationTracking) (created : List Buffer)
    (tracking : AllocationTracking) : Option (Svma AllocationTracking) :=
  (created.map Buffer.allocation).foldlM
    (fun svma allocation => Svma.createBuffer svma allocation tracking) svma

/-- The images of a window that `create_swapchain_image_views_and_framebuffers` creates. -/
def Svma.createImages (svma : Svma AllocationTracking) (window : Nat) (color depth : Texture) :
    Option (Svma AllocationTracking) :=
  (svma.createTexture color.allocation ⟨.colorImage, window⟩).bind fun svma =>
    svma.createTexture depth.allocation ⟨.depthImage, window⟩

variable (E : MemoryEnv)

/-- `vd_texture_system_new`. -/
def textureSystemNew (s : RendererMemory) (image : Texture) (result : E.textures.Value) :
    Option RendererMemory :=
  (s.svma.createTexture image.allocation ⟨.texture, s.textures.objects.length⟩).bind fun svma =>
    (s.textures.register E.textures image result).map fun textures => { s with svma, textures }

/-- `vd_r_geo_system_new`. -/
def RendererMemory.geoSystemNew (s : RendererMemory) (info : MeshCreateInfo) (vk : MeshAnswers)
    (result : E.geos.Value) : Option RendererMemory :=
  (s.svma.createBuffers s.geos.objects.length info vk).bind fun made =>
    (s.geos.register E.geos made.1 result).map fun geos => { s with svma := made.2, geos }

/-- `vd_renderer_write_mesh`. -/
def RendererMemory.writeMesh (s : RendererMemory) (token : Nat) (info : MeshCreateInfo) (staging : Buffer)
    (vk : MeshAnswers) : Option RendererMemory :=
  (s.geos.use E.geos token).bind fun used =>
    (s.svma.createBuffer staging.allocation ⟨.stagingBuffer, used.1⟩).bind fun svma =>
      (svma.resizeGeo used.1 used.2 info vk).map fun resized =>
        let mesh : GPUMesh :=
          { resized.1 with num_indices := info.num_indices, num_vertices := info.num_vertices }
        { s with
          svma := resized.2.free staging.allocation
          geos := { s.geos with objects := s.geos.objects.set used.1 mesh } }

/-- `smat_new_from_blueprint`, of a blueprint with these properties; the device returns `created`. -/
def RendererMemory.newFromBlueprint (s : RendererMemory) (properties : List MaterialProperty)
    (created : List Buffer) (result : E.materials.Value) : Option RendererMemory :=
  if created.length = (structs properties).length then
    (s.svma.createEach created ⟨.uniformBuffer, s.materials.objects.length⟩).bind fun svma =>
      let material : GPUMaterial :=
        -- `num_buffers` is not set
        ⟨0, createUniformBuffers 0 (properties.map MaterialProperty.binding) created
          (List.replicate maxUniformBuffers noBuffer), properties⟩
      (s.materials.register E.materials material result).map fun materials => { s with svma, materials }
  else none

/-- `vd_renderer_upload_texture_data`. -/
def RendererMemory.uploadTextureData (s : RendererMemory) (staging : Buffer) : Option RendererMemory :=
  (s.svma.createBuffer staging.allocation ⟨.stagingBuffer, 0⟩).map fun svma =>
    { s with svma := svma.free staging.allocation }

/-- `RendererOnWindowComponentSet`, for one window. -/
def RendererMemory.windowSet (s : RendererMemory) (window : Nat) (color depth : Texture) :
    Option RendererMemory :=
  match s.windows window with
  | some _ => some s
  | none => (s.svma.createImages window color depth).map fun svma =>
      { s with svma, windows := Function.update s.windows window (some (color, depth)) }

/-- `RendererCheckWindowComponentSizeChange`, for one window that was resized. -/
def RendererMemory.windowResized (s : RendererMemory) (window : Nat) (color depth : Texture) :
    Option RendererMemory :=
  (s.windows window).bind fun images =>
    (((s.svma.free images.1.allocation).free images.2.allocation).createImages window color depth).map
      fun svma => { s with svma, windows := Function.update s.windows window (some (color, depth)) }

/-- `on_window_component_immediate_destroy`. -/
def RendererMemory.windowDestroyed (s : RendererMemory) (window : Nat) : Option RendererMemory :=
  (s.windows window).map fun images =>
    { s with
      svma := (s.svma.free images.1.allocation).free images.2.allocation
      windows := Function.update s.windows window none }

/-- `COPY_HANDLE`, of a handle of a system. -/
def RendererMemory.copyHandle (s : RendererMemory) (token : Nat) : SystemName → Option RendererMemory
  | .textures => (s.textures.copy E.textures token).map fun textures => { s with textures }
  | .geos => (s.geos.copy E.geos token).map fun geos => { s with geos }
  | .materials => (s.materials.copy E.materials token).map fun materials => { s with materials }

/-- `DROP_HANDLE`, of a handle of a system. -/
def RendererMemory.dropHandle (s : RendererMemory) (token : Nat) : SystemName → Option RendererMemory
  | .textures => (s.textures.drop E.textures token).map fun dropped =>
      { s with
        svma := callOnFree Svma.freeTexture s.textures.objects s.svma dropped.2
        textures := dropped.1 }
  | .geos => (s.geos.drop E.geos token).map fun dropped =>
      { s with
        svma := callOnFree Svma.freeGeo s.geos.objects s.svma dropped.2
        geos := dropped.1 }
  | .materials => (s.materials.drop E.materials token).map fun dropped =>
      { s with
        svma := callOnFree Svma.freeMaterial s.materials.objects s.svma dropped.2
        materials := dropped.1 }

/-- What is done with the renderer, with what the device creates for it. -/
inductive MemoryOp where
  | textureNew (image : Texture) (result : E.textures.Value)
  | meshNew (info : MeshCreateInfo) (vk : MeshAnswers) (result : E.geos.Value)
  | writeMesh (token : Nat) (info : MeshCreateInfo) (staging : Buffer) (vk : MeshAnswers)
  | materialNew (properties : List MaterialProperty) (created : List Buffer) (result : E.materials.Value)
  | uploadTextureData (staging : Buffer)
  | windowSet (window : Nat) (color depth : Texture)
  | windowResized (window : Nat) (color depth : Texture)
  | windowDestroyed (window : Nat)
  | copy (token : Nat) (system : SystemName)
  | drop (token : Nat) (system : SystemName)

/-- One operation. -/
def memoryStep (s : RendererMemory) : MemoryOp E → Option RendererMemory
  | .textureNew image result => textureSystemNew E s image result
  | .meshNew info vk result => s.geoSystemNew E info vk result
  | .writeMesh token info staging vk => s.writeMesh E token info staging vk
  | .materialNew properties created result => s.newFromBlueprint E properties created result
  | .uploadTextureData staging => s.uploadTextureData staging
  | .windowSet window color depth => s.windowSet window color depth
  | .windowResized window color depth => s.windowResized window color depth
  | .windowDestroyed window => s.windowDestroyed window
  | .copy token system => s.copyHandle E token system
  | .drop token system => s.dropHandle E token system

/-- `vd_renderer_init`, with the struct bindings of set 0, for which the device creates `set0`: all of them
are put into the first place. -/
def rendererMemoryInit (selfs : SystemName → Nat) (mem : SystemName → Mem) (set0 : List Buffer) :
    Option RendererMemory :=
  (ObjectSystem.init E.textures (selfs .textures) (mem .textures)).bind fun textures =>
    (ObjectSystem.init E.geos (selfs .geos) (mem .geos)).bind fun geos =>
      (ObjectSystem.init E.materials (selfs .materials) (mem .materials)).bind fun materials =>
        ((svmaInit true).createEach set0 ⟨.set0Buffer, 0⟩).map fun svma =>
          ⟨svma, textures, geos, materials, set0.getLast?.getD noBuffer, fun _ => none⟩

/-- `vd_renderer_deinit`: the allocator in front of `svma_deinit`. -/
def rendererDeinit (s : RendererMemory) : Svma AllocationTracking :=
  -- `num_set0_buffers` is 1
  let svma := s.svma.free s.set0_buffer.allocation
  let svma := callOnFree Svma.freeMaterial s.materials.objects svma (s.materials.deinit E.materials)
  let svma := callOnFree Svma.freeTexture s.textures.objects svma (s.textures.deinit E.textures)
  callOnFree Svma.freeGeo s.geos.objects svma (s.geos.deinit E.geos)

/-- What is never freed: how many allocations of a call, for an owner. -/
def RendererMemory.leaks (s : RendererMemory) (set0 : List Buffer) : AllocationTracking → Nat
  | ⟨.uniformBuffer, n⟩ => (s.materials.objects[n]?.map fun m => (structs m.properties).length).getD 0
  | ⟨.set0Buffer, n⟩ => if n = 0 then set0.length - 1 else 0
  | ⟨.colorImage, window⟩ => if (s.windows window).isSome then 1 else 0
  | ⟨.depthImage, window⟩ => if (s.windows window).isSome then 1 else 0
  | _ => 0

end Operations

/-! ### What a free callback frees -/

/-- What a texture holds. -/
def Texture.parts (image : Texture) : List (AllocationSite × Nat) := [(.texture, image.allocation)]

/-- What a mesh holds. -/
def GPUMesh.parts (m : GPUMesh) : List (AllocationSite × Nat) :=
  [(.indexBuffer, m.index.allocation), (.vertexBuffer, m.vertex.allocation)]

section Frees

variable {α : Type} {objects : List α} {free : Svma AllocationTracking → α → Svma AllocationTracking}
  {sites : List AllocationSite} {lost : AllocationTracking → Nat}

/-- The labels of the parts of the object in a slot. -/
theorem mem_labels {t : AllocationTracking} {n : Nat} :
    t ∈ sites.map (fun site => (⟨site, n⟩ : AllocationTracking)) ↔ t.owner = n ∧ t.site ∈ sites := by
  rw [List.mem_map]
  constructor
  · rintro ⟨site, member, rfl⟩
    exact ⟨rfl, member⟩
  · rintro ⟨rfl, member⟩
    exact ⟨t.site, member, rfl⟩

/-- **The free callback on several slots.** A callback that frees the parts of an object takes them from their
places, and nothing else. The induction is over the slots. -/
theorem callOnFree_places (parts : α → List (AllocationSite × Nat))
    (frees : ∀ svma, ∀ object ∈ objects, free svma object = ((parts object).map Prod.snd).foldl Svma.free svma)
    (named : ∀ object ∈ objects, (parts object).map Prod.fst = sites) (distinct : sites.Nodup) :
    ∀ {slots : List Nat} {svma : Svma AllocationTracking} {place : AllocationTracking → Option Nat},
      svma.Places place lost → slots.Nodup →
      (∀ n ∈ slots, ∃ object, objects[n]? = some object ∧
        ∀ held ∈ parts object, place ⟨held.1, n⟩ = some held.2) →
      (callOnFree free objects svma slots).Places
        (fun t => if t.owner ∈ slots ∧ t.site ∈ sites then none else place t) lost
  | [], svma, place, places, _, _ => by
    simp only [List.not_mem_nil, false_and, if_false]
    exact places
  | n :: rest, svma, place, places, nodup, placed => by
    obtain ⟨apart, later⟩ := List.nodup_cons.mp nodup
    obtain ⟨object, here, holds⟩ := placed n List.mem_cons_self
    have among := List.mem_of_getElem? here
    have labels : ((parts object).map fun held => ((⟨held.1, n⟩ : AllocationTracking), held.2)).map Prod.fst =
        sites.map fun site => ⟨site, n⟩ := by
      rw [← named object among, List.map_map, List.map_map]
      rfl
    have apartLabels : (sites.map fun site => (⟨site, n⟩ : AllocationTracking)).Nodup :=
      distinct.map fun _ _ same => congrArg AllocationTracking.site same
    have freed := places.freeAll (labels ▸ apartLabels) fun pair member => by
      obtain ⟨held, inside, rfl⟩ := List.mem_map.mp member
      exact holds held inside
    have allocations : ((parts object).map fun held => ((⟨held.1, n⟩ : AllocationTracking), held.2)).map
        Prod.snd = (parts object).map Prod.snd := by
      rw [List.map_map]
      rfl
    rw [labels, allocations, ← frees svma object among] at freed
    have ended := callOnFree_places parts frees named distinct freed later fun m member => by
      obtain ⟨other, there, held⟩ := placed m (List.mem_cons_of_mem _ member)
      refine ⟨other, there, fun part inside => ?_⟩
      have elsewhere : (⟨part.1, m⟩ : AllocationTracking) ∉ sites.map fun site => ⟨site, n⟩ := fun mine =>
        apart ((mem_labels.mp mine).1 ▸ member)
      rw [if_neg elsewhere]
      exact held part inside
    have called : callOnFree free objects svma (n :: rest) =
        callOnFree free objects (free svma object) rest := by
      unfold callOnFree
      rw [List.foldl_cons, here]
      rfl
    have same : (fun t : AllocationTracking => if t.owner ∈ rest ∧ t.site ∈ sites then none
        else if t ∈ sites.map (fun site => (⟨site, n⟩ : AllocationTracking)) then none else place t) =
        fun t => if t.owner ∈ n :: rest ∧ t.site ∈ sites then none else place t := by
      funext t
      simp only [mem_labels, List.mem_cons]
      split_ifs <;> first | rfl | tauto
    rw [called, ← same]
    exact ended

end Frees

/-! ### Where allocations are kept -/

/-- Where an allocation is kept, if anywhere. -/
def RendererMemory.place (s : RendererMemory) : AllocationTracking → Option Nat
  | ⟨.texture, n⟩ => s.textures.place Texture.allocation n
  | ⟨.indexBuffer, n⟩ => s.geos.place (fun m => m.index.allocation) n
  | ⟨.vertexBuffer, n⟩ => s.geos.place (fun m => m.vertex.allocation) n
  | ⟨.set0Buffer, n⟩ => if n = 0 then some s.set0_buffer.allocation else none
  | ⟨.colorImage, window⟩ => (s.windows window).map fun images => images.1.allocation
  | ⟨.depthImage, window⟩ => (s.windows window).map fun images => images.2.allocation
  | _ => none

/-- How many allocations are kept nowhere. -/
def RendererMemory.lost (s : RendererMemory) (set0 : List Buffer) : AllocationTracking → Nat
  | ⟨.uniformBuffer, n⟩ => (s.materials.objects[n]?.map fun m => (structs m.properties).length).getD 0
  | ⟨.set0Buffer, n⟩ => if n = 0 then set0.length - 1 else 0
  | _ => 0

/-- **Every allocation is where its owner keeps it**, or lost, and no material counts its buffers. -/
structure MemorySound (E : MemoryEnv) (set0 : List Buffer) (s : RendererMemory) : Prop where
  textures : s.textures.Sound E.textures
  geos : s.geos.Sound E.geos
  materials : s.materials.Sound E.materials
  unset : ∀ material ∈ s.materials.objects, material.num_buffers = 0
  places : s.svma.Places s.place (s.lost set0)

section Steps

variable {E : MemoryEnv} {s t : RendererMemory} {set0 : List Buffer} {svma svma' : Svma AllocationTracking}
  {place : AllocationTracking → Option Nat} {lost : AllocationTracking → Nat} {token slot window : Nat}
  {info : MeshCreateInfo} {vk : MeshAnswers} {mesh : GPUMesh} {color depth : Texture} {staging : Buffer}

/-- The places of a mesh. -/
theorem Svma.Places.createBuffers {made : GPUMesh × Svma AllocationTracking}
    (places : svma.Places place lost) (done : svma.createBuffers slot info vk = some made)
    (index : place ⟨.indexBuffer, slot⟩ = none) (vertex : place ⟨.vertexBuffer, slot⟩ = none) :
    made.2.Places (Function.update (Function.update place ⟨.indexBuffer, slot⟩
      (some made.1.index.allocation)) ⟨.vertexBuffer, slot⟩ (some made.1.vertex.allocation)) lost := by
  obtain ⟨first, madeIndex, rest⟩ := Option.bind_eq_some_iff.mp done
  obtain ⟨second, madeVertex, rfl⟩ := Option.map_eq_some_iff.mp rest
  refine (places.create madeIndex index).create madeVertex ?_
  rw [Function.update_of_ne (by simp)]
  exact vertex

/-- **`free_geo`** empties both places. -/
theorem Svma.Places.freeGeo (places : svma.Places place lost)
    (index : place ⟨.indexBuffer, slot⟩ = some mesh.index.allocation)
    (vertex : place ⟨.vertexBuffer, slot⟩ = some mesh.vertex.allocation) :
    (svma.freeGeo mesh).Places (Function.update (Function.update place ⟨.indexBuffer, slot⟩ none)
      ⟨.vertexBuffer, slot⟩ none) lost := by
  refine (places.free index).free ?_
  rw [Function.update_of_ne (by simp)]
  exact vertex

/-- **`sgeo_resize`** keeps both places full. -/
theorem Svma.Places.resizeGeo {made : GPUMesh × Svma AllocationTracking}
    (places : svma.Places place lost) (done : svma.resizeGeo slot mesh info vk = some made)
    (index : place ⟨.indexBuffer, slot⟩ = some mesh.index.allocation)
    (vertex : place ⟨.vertexBuffer, slot⟩ = some mesh.vertex.allocation) :
    made.2.Places (Function.update (Function.update place ⟨.indexBuffer, slot⟩
      (some made.1.index.allocation)) ⟨.vertexBuffer, slot⟩ (some made.1.vertex.allocation)) lost := by
  unfold Svma.resizeGeo at done
  split at done
  · have made := (places.freeGeo index vertex).createBuffers done
      (by rw [Function.update_of_ne (by simp), Function.update_self])
      (Function.update_self _ _ _)
    have apart : (⟨.vertexBuffer, slot⟩ : AllocationTracking) ≠ ⟨.indexBuffer, slot⟩ := by simp
    rwa [Function.update_comm apart, Function.update_idem, Function.update_idem] at made
  · cases done
    rw [← index, Function.update_eq_self, ← vertex, Function.update_eq_self]
    exact places

/-- The images of a window that has none. -/
theorem Svma.Places.createImages (places : svma.Places place lost)
    (done : svma.createImages window color depth = some svma')
    (noColor : place ⟨.colorImage, window⟩ = none) (noDepth : place ⟨.depthImage, window⟩ = none) :
    svma'.Places (Function.update (Function.update place ⟨.colorImage, window⟩ (some color.allocation))
      ⟨.depthImage, window⟩ (some depth.allocation)) lost := by
  obtain ⟨first, madeColor, madeDepth⟩ := Option.bind_eq_some_iff.mp done
  refine (places.create madeColor noColor).create madeDepth ?_
  rw [Function.update_of_ne (by simp)]
  exact noDepth

/-- The images of a window go. -/
theorem Svma.Places.freeImages (places : svma.Places place lost)
    (hasColor : place ⟨.colorImage, window⟩ = some color.allocation)
    (hasDepth : place ⟨.depthImage, window⟩ = some depth.allocation) :
    ((svma.free color.allocation).free depth.allocation).Places (Function.update
      (Function.update place ⟨.colorImage, window⟩ none) ⟨.depthImage, window⟩ none) lost := by
  refine (places.free hasColor).free ?_
  rw [Function.update_of_ne (by simp)]
  exact hasDepth

/-- **Textures are freed** from their places. -/
theorem RendererMemory.freeTextures (s : RendererMemory) {slots : List Nat} (places : svma.Places place lost) (nodup : slots.Nodup)
    (live : ∀ n ∈ slots, n < s.textures.objects.length ∧ n ∉ s.textures.session.map.freed)
    (own : ∀ n, place ⟨.texture, n⟩ = s.place ⟨.texture, n⟩) :
    (callOnFree Svma.freeTexture s.textures.objects svma slots).Places
      (fun t => if t.owner ∈ slots ∧ t.site ∈ [AllocationSite.texture] then none else place t) lost := by
  refine callOnFree_places Texture.parts (fun _ _ _ => rfl) (fun _ _ => rfl)
    (List.nodup_singleton _) places nodup fun n member => ?_
  obtain ⟨inside, unfreed⟩ := live n member
  have here := List.getElem?_eq_getElem inside
  refine ⟨_, here, fun held among => ?_⟩
  obtain rfl := List.mem_singleton.mp among
  rw [own]
  exact ObjectSystem.place_here here unfreed

/-- **Meshes are freed** from their places. -/
theorem RendererMemory.freeGeos (s : RendererMemory) {slots : List Nat} (places : svma.Places place lost) (nodup : slots.Nodup)
    (live : ∀ n ∈ slots, n < s.geos.objects.length ∧ n ∉ s.geos.session.map.freed)
    (own : ∀ n, place ⟨.indexBuffer, n⟩ = s.place ⟨.indexBuffer, n⟩ ∧
      place ⟨.vertexBuffer, n⟩ = s.place ⟨.vertexBuffer, n⟩) :
    (callOnFree Svma.freeGeo s.geos.objects svma slots).Places (fun t =>
      if t.owner ∈ slots ∧ t.site ∈ [AllocationSite.indexBuffer, .vertexBuffer] then none
      else place t) lost := by
  refine callOnFree_places GPUMesh.parts (fun _ _ _ => rfl) (fun _ _ => rfl)
    (by decide) places nodup fun n member => ?_
  obtain ⟨inside, unfreed⟩ := live n member
  have here := List.getElem?_eq_getElem inside
  refine ⟨_, here, fun held among => ?_⟩
  rcases List.mem_cons.mp among with rfl | among
  · rw [(own n).1]
    exact ObjectSystem.place_here here unfreed
  · obtain rfl := List.mem_singleton.mp among
    rw [(own n).2]
    exact ObjectSystem.place_here here unfreed

/-- **No buffer of a material is freed.** -/
theorem MemorySound.freeMaterials (sound : MemorySound E set0 s) (slots : List Nat)
    (svma : Svma AllocationTracking) :
    callOnFree Svma.freeMaterial s.materials.objects svma slots = svma := by
  induction slots with
  | nil => rfl
  | cons n rest ih =>
    unfold callOnFree at ih ⊢
    rw [List.foldl_cons]
    cases here : s.materials.objects[n]? with
    | none => exact ih
    | some material =>
      have unset := sound.unset material (List.mem_of_getElem? here)
      rw [Option.map_some, Option.getD_some, Svma.freeMaterial, unset]
      exact ih

/-- **A new texture.** -/
theorem textureSystemNew_sound {image : Texture} {result : E.textures.Value} (sound : MemorySound E set0 s)
    (done : textureSystemNew E s image result = some t) : MemorySound E set0 t := by
  obtain ⟨svma, created, rest⟩ := Option.bind_eq_some_iff.mp done
  obtain ⟨textures, registered, rfl⟩ := Option.map_eq_some_iff.mp rest
  obtain ⟨soundAfter, objects, freed⟩ := ObjectSystem.register_spec sound.textures registered
  have places := sound.places.create created
    (show s.place ⟨.texture, _⟩ = none from ObjectSystem.place_none (Nat.le_refl _))
  refine ⟨soundAfter, sound.geos, sound.materials, sound.unset, places.congr (fun label => ?_) fun _ => rfl⟩
  obtain ⟨site, n⟩ := label
  cases site with
  | texture =>
    simp only [RendererMemory.place, Function.update_apply, AllocationTracking.mk.injEq, true_and]
    exact ObjectSystem.place_register sound.textures objects freed n
  | _ => exact (Function.update_of_ne (by simp) _ _).symm

/-- **A new mesh.** -/
theorem RendererMemory.geoSystemNew_sound {result : E.geos.Value} (sound : MemorySound E set0 s)
    (done : s.geoSystemNew E info vk result = some t) : MemorySound E set0 t := by
  obtain ⟨made, created, rest⟩ := Option.bind_eq_some_iff.mp done
  obtain ⟨geos, registered, rfl⟩ := Option.map_eq_some_iff.mp rest
  obtain ⟨soundAfter, objects, freed⟩ := ObjectSystem.register_spec sound.geos registered
  have places := sound.places.createBuffers created
    (ObjectSystem.place_none (Nat.le_refl _)) (ObjectSystem.place_none (Nat.le_refl _))
  refine ⟨sound.textures, soundAfter, sound.materials, sound.unset, places.congr (fun label => ?_) fun _ => rfl⟩
  obtain ⟨site, n⟩ := label
  have register := fun part => @ObjectSystem.place_register _ _ _ _ _ part sound.geos objects freed n
  cases site with
  | indexBuffer =>
    simp only [RendererMemory.place, Function.update_apply, AllocationTracking.mk.injEq, true_and,
      reduceCtorEq, false_and, if_false]
    exact register _
  | vertexBuffer =>
    simp only [RendererMemory.place, Function.update_apply, AllocationTracking.mk.injEq, true_and,
      reduceCtorEq, false_and, if_false]
    exact register _
  | _ => exact ((Function.update_of_ne (by simp) _ _).trans (Function.update_of_ne (by simp) _ _)).symm

/-- **A write of a mesh** frees its staging buffer. -/
theorem RendererMemory.writeMesh_sound (sound : MemorySound E set0 s)
    (done : s.writeMesh E token info staging vk = some t) : MemorySound E set0 t := by
  obtain ⟨⟨slot, mesh⟩, used, rest⟩ := Option.bind_eq_some_iff.mp done
  obtain ⟨svma, staged, rest⟩ := Option.bind_eq_some_iff.mp rest
  obtain ⟨made, resized, rfl⟩ := Option.map_eq_some_iff.mp rest
  obtain ⟨here, live⟩ := ObjectSystem.use_spec sound.geos used
  clear done rest used
  have inside : slot < s.geos.objects.length := (List.getElem?_eq_some_iff.mp here).1
  have kept : ∀ site part, site ≠ .stagingBuffer → s.place ⟨site, slot⟩ = s.geos.place part slot →
      Function.update s.place ⟨.stagingBuffer, slot⟩ (some staging.allocation) ⟨site, slot⟩ =
        some (part mesh) := by
    intro site part other own
    rw [Function.update_of_ne (by simpa using other), own]
    exact ObjectSystem.place_here here live
  have written := (sound.places.create staged rfl).resizeGeo resized
    (kept .indexBuffer (fun m => m.index.allocation) nofun rfl)
    (kept .vertexBuffer (fun m => m.vertex.allocation) nofun rfl)
  have places := @Svma.Places.free _ _ _ _ _ staging.allocation ⟨.stagingBuffer, slot⟩ written (by
    rw [Function.update_of_ne (by simp), Function.update_of_ne (by simp), Function.update_self])
  have soundAfter : ∀ mesh, ObjectSystem.Sound E.geos
      { s.geos with objects := s.geos.objects.set slot mesh } := by
    obtain ⟨store, related, length, counted⟩ := sound.geos
    exact fun mesh => ⟨store, related, (List.length_set).trans length, counted⟩
  refine ⟨sound.textures, soundAfter _, sound.materials, sound.unset, places.congr (fun label => ?_) fun _ => rfl⟩
  obtain ⟨site, n⟩ := label
  have set := fun part object => @ObjectSystem.place_set _ _ part _ inside live object n
  cases site with
  | indexBuffer =>
    simp only [RendererMemory.place, Function.update_apply, AllocationTracking.mk.injEq, true_and,
      reduceCtorEq, false_and, if_false]
    exact set _ _
  | vertexBuffer =>
    simp only [RendererMemory.place, Function.update_apply, AllocationTracking.mk.injEq, true_and,
      reduceCtorEq, false_and, if_false]
    exact set _ _
  | stagingBuffer =>
    simp only [RendererMemory.place, Function.update_apply, AllocationTracking.mk.injEq, true_and,
      reduceCtorEq, false_and, if_false]
    split <;> rfl
  | _ =>
    simp only [RendererMemory.place, Function.update_apply, AllocationTracking.mk.injEq, reduceCtorEq,
      false_and, if_false]

/-- **A new material** loses its uniform buffers. -/
theorem RendererMemory.newFromBlueprint_sound {properties : List MaterialProperty} {created : List Buffer}
    {result : E.materials.Value} (sound : MemorySound E set0 s)
    (done : s.newFromBlueprint E properties created result = some t) : MemorySound E set0 t := by
  unfold RendererMemory.newFromBlueprint at done
  split at done
  · next many =>
    obtain ⟨svma, made, rest⟩ := Option.bind_eq_some_iff.mp done
    obtain ⟨materials, registered, rfl⟩ := Option.map_eq_some_iff.mp rest
    obtain ⟨soundAfter, objects, freed⟩ := ObjectSystem.register_spec sound.materials registered
    refine ⟨sound.textures, sound.geos, soundAfter, fun material member => ?_,
      (sound.places.loseAll made).congr (fun _ => rfl) fun label => ?_⟩
    · rw [objects] at member
      rcases List.mem_append.mp member with before | new
      · exact sound.unset material before
      · obtain rfl := List.mem_singleton.mp new
        rfl
    · obtain ⟨site, n⟩ := label
      cases site with
      | uniformBuffer =>
        simp only [RendererMemory.lost, objects, AllocationTracking.mk.injEq, true_and, List.length_map]
        by_cases last : n = s.materials.objects.length
        · subst last
          rw [List.getElem?_concat_length, List.getElem?_eq_none (Nat.le_refl _), if_pos rfl, many]
          exact (Nat.zero_add _).symm
        · rw [if_neg last, Nat.add_zero]
          rcases Nat.lt_or_ge n s.materials.objects.length with inside | outside
          · rw [List.getElem?_append_left inside]
          · rw [List.getElem?_eq_none outside, List.getElem?_eq_none]
            rw [List.length_append, List.length_singleton]
            omega
      | _ =>
        rw [if_neg (by simp), Nat.add_zero]
        rfl
  · cases done

/-- **An upload** frees its staging buffer. -/
theorem RendererMemory.uploadTextureData_sound (sound : MemorySound E set0 s)
    (done : s.uploadTextureData staging = some t) : MemorySound E set0 t := by
  obtain ⟨svma, staged, rfl⟩ := Option.map_eq_some_iff.mp done
  have places := @Svma.Places.free _ _ _ _ _ staging.allocation ⟨.stagingBuffer, 0⟩
    (sound.places.create staged rfl) (Function.update_self _ _ _)
  refine ⟨sound.textures, sound.geos, sound.materials, sound.unset, places.congr (fun label => ?_)
    fun _ => rfl⟩
  by_cases same : label = ⟨.stagingBuffer, 0⟩
  · subst same
    rw [Function.update_self]
    rfl
  · exact ((Function.update_of_ne same _ _).trans (Function.update_of_ne same _ _)).symm

/-- What the places are after the windows have changed. -/
theorem RendererMemory.place_windows (s : RendererMemory) (svma : Svma AllocationTracking) (window : Nat)
    (images : Option (Texture × Texture)) (label : AllocationTracking) :
    RendererMemory.place { s with svma, windows := Function.update s.windows window images } label =
      Function.update (Function.update s.place ⟨.colorImage, window⟩
        (images.map fun images => images.1.allocation)) ⟨.depthImage, window⟩
        (images.map fun images => images.2.allocation) label := by
  obtain ⟨site, n⟩ := label
  cases site with
  | colorImage =>
    simp only [RendererMemory.place, Function.update_apply, AllocationTracking.mk.injEq, true_and,
      reduceCtorEq, false_and, if_false]
    split <;> rfl
  | depthImage =>
    simp only [RendererMemory.place, Function.update_apply, AllocationTracking.mk.injEq, true_and,
      reduceCtorEq, false_and, if_false]
    split <;> rfl
  | _ => exact ((Function.update_of_ne (by simp) _ _).trans (Function.update_of_ne (by simp) _ _)).symm

/-- **A window** gets its images, gets others, and loses them. -/
theorem RendererMemory.windowSet_sound (sound : MemorySound E set0 s)
    (done : s.windowSet window color depth = some t) : MemorySound E set0 t := by
  unfold RendererMemory.windowSet at done
  split at done
  · cases done
    exact sound
  · next closed =>
    obtain ⟨svma, created, rfl⟩ := Option.map_eq_some_iff.mp done
    have empty : ∀ part : Texture × Texture → Nat, (s.windows window).map part = none := fun part => by
      rw [closed]
      rfl
    have places := sound.places.createImages created (empty _) (empty _)
    exact ⟨sound.textures, sound.geos, sound.materials, sound.unset,
      places.congr (s.place_windows svma window _) fun _ => rfl⟩

theorem RendererMemory.windowResized_sound (sound : MemorySound E set0 s)
    (done : s.windowResized window color depth = some t) : MemorySound E set0 t := by
  obtain ⟨images, opened, rest⟩ := Option.bind_eq_some_iff.mp done
  obtain ⟨svma, created, rfl⟩ := Option.map_eq_some_iff.mp rest
  have full : ∀ part : Texture × Texture → Nat, (s.windows window).map part = some (part images) :=
    fun part => by
      rw [opened]
      rfl
  have apart : (⟨.depthImage, window⟩ : AllocationTracking) ≠ ⟨.colorImage, window⟩ := by simp
  have places := (sound.places.freeImages (full _) (full _)).createImages created
    (by rw [Function.update_of_ne apart.symm, Function.update_self])
    (Function.update_self _ _ _)
  rw [Function.update_comm apart, Function.update_idem, Function.update_idem] at places
  exact ⟨sound.textures, sound.geos, sound.materials, sound.unset,
    places.congr (s.place_windows svma window _) fun _ => rfl⟩

theorem RendererMemory.windowDestroyed_sound (sound : MemorySound E set0 s)
    (done : s.windowDestroyed window = some t) : MemorySound E set0 t := by
  obtain ⟨images, opened, rfl⟩ := Option.map_eq_some_iff.mp done
  have full : ∀ part : Texture × Texture → Nat, (s.windows window).map part = some (part images) :=
    fun part => by
      rw [opened]
      rfl
  exact ⟨sound.textures, sound.geos, sound.materials, sound.unset,
    (sound.places.freeImages (full _) (full _)).congr (s.place_windows _ window none) fun _ => rfl⟩

/-- **A copy of a handle** leaves all places. -/
theorem RendererMemory.copyHandle_sound {system : SystemName} (sound : MemorySound E set0 s)
    (done : s.copyHandle E token system = some t) : MemorySound E set0 t := by
  cases system with
  | textures =>
    obtain ⟨textures, copied, rfl⟩ := Option.map_eq_some_iff.mp done
    obtain ⟨soundAfter, objects, freed⟩ := ObjectSystem.copy_spec sound.textures copied
    refine ⟨soundAfter, sound.geos, sound.materials, sound.unset, sound.places.congr (fun label => ?_)
      fun _ => rfl⟩
    obtain ⟨site, n⟩ := label
    cases site <;> simp only [RendererMemory.place, ObjectSystem.place, objects, freed]
  | geos =>
    obtain ⟨geos, copied, rfl⟩ := Option.map_eq_some_iff.mp done
    obtain ⟨soundAfter, objects, freed⟩ := ObjectSystem.copy_spec sound.geos copied
    refine ⟨sound.textures, soundAfter, sound.materials, sound.unset, sound.places.congr (fun label => ?_)
      fun _ => rfl⟩
    obtain ⟨site, n⟩ := label
    cases site <;> simp only [RendererMemory.place, ObjectSystem.place, objects, freed]
  | materials =>
    obtain ⟨materials, copied, rfl⟩ := Option.map_eq_some_iff.mp done
    obtain ⟨soundAfter, objects, -⟩ := ObjectSystem.copy_spec sound.materials copied
    refine ⟨sound.textures, sound.geos, soundAfter, objects ▸ sound.unset,
      sound.places.congr (fun _ => rfl) fun label => ?_⟩
    obtain ⟨site, n⟩ := label
    cases site <;> simp only [RendererMemory.lost, objects]

/-- **A drop of a handle** empties the places of the objects that go with it. -/
theorem RendererMemory.dropHandle_sound {system : SystemName} (sound : MemorySound E set0 s)
    (done : s.dropHandle E token system = some t) : MemorySound E set0 t := by
  cases system with
  | textures =>
    obtain ⟨⟨textures, slots⟩, dropped, rfl⟩ := Option.map_eq_some_iff.mp done
    obtain ⟨soundAfter, objects, freed, nodup, live⟩ := ObjectSystem.drop_spec sound.textures dropped
    refine ⟨soundAfter, sound.geos, sound.materials, sound.unset,
      (s.freeTextures sound.places nodup live fun _ => rfl).congr (fun label => ?_) fun _ => rfl⟩
    obtain ⟨site, n⟩ := label
    cases site with
    | texture =>
      simp only [RendererMemory.place, List.mem_singleton, and_true]
      exact ObjectSystem.place_freed objects freed n
    | _ => exact (if_neg (by simp)).symm
  | geos =>
    obtain ⟨⟨geos, slots⟩, dropped, rfl⟩ := Option.map_eq_some_iff.mp done
    obtain ⟨soundAfter, objects, freed, nodup, live⟩ := ObjectSystem.drop_spec sound.geos dropped
    refine ⟨sound.textures, soundAfter, sound.materials, sound.unset,
      (s.freeGeos sound.places nodup live fun _ => ⟨rfl, rfl⟩).congr (fun label => ?_) fun _ => rfl⟩
    obtain ⟨site, n⟩ := label
    cases site with
    | indexBuffer =>
      simp only [RendererMemory.place, List.mem_cons, true_or, and_true]
      exact ObjectSystem.place_freed objects freed n
    | vertexBuffer =>
      simp only [RendererMemory.place, List.mem_cons, true_or, or_true, and_true]
      exact ObjectSystem.place_freed objects freed n
    | _ => exact (if_neg (by simp)).symm
  | materials =>
    obtain ⟨⟨materials, slots⟩, dropped, rfl⟩ := Option.map_eq_some_iff.mp done
    obtain ⟨soundAfter, objects, -, -, -⟩ := ObjectSystem.drop_spec sound.materials dropped
    refine ⟨sound.textures, sound.geos, soundAfter, objects ▸ sound.unset, ?_⟩
    rw [sound.freeMaterials]
    refine sound.places.congr (fun _ => rfl) fun label => ?_
    obtain ⟨site, n⟩ := label
    cases site <;> simp only [RendererMemory.lost, objects]

/-- **Every operation keeps the invariant.** -/
theorem memoryStep_sound {op : MemoryOp E} (sound : MemorySound E set0 s)
    (done : memoryStep E s op = some t) : MemorySound E set0 t := by
  cases op with
  | textureNew image result => exact textureSystemNew_sound sound done
  | meshNew info vk result => exact RendererMemory.geoSystemNew_sound sound done
  | writeMesh token info staging vk => exact RendererMemory.writeMesh_sound sound done
  | materialNew properties created result => exact RendererMemory.newFromBlueprint_sound sound done
  | uploadTextureData staging => exact RendererMemory.uploadTextureData_sound sound done
  | windowSet window color depth => exact RendererMemory.windowSet_sound sound done
  | windowResized window color depth => exact RendererMemory.windowResized_sound sound done
  | windowDestroyed window => exact RendererMemory.windowDestroyed_sound sound done
  | copy token system => exact RendererMemory.copyHandle_sound sound done
  | drop token system => exact RendererMemory.dropHandle_sound sound done

end Steps

/-! ### Runs -/

section Runs

variable {E : MemoryEnv} {s start : RendererMemory} {set0 : List Buffer} {ops : List (MemoryOp E)}
  {selfs : SystemName → Nat} {mem : SystemName → Mem}

/-- **The start**: of the buffers of set 0 the last is kept, and the others are lost. -/
theorem rendererMemoryInit_sound (some0 : set0 ≠ [])
    (started : rendererMemoryInit E selfs mem set0 = some s) : MemorySound E set0 s := by
  obtain ⟨textures, initTextures, rest⟩ := Option.bind_eq_some_iff.mp started
  obtain ⟨geos, initGeos, rest⟩ := Option.bind_eq_some_iff.mp rest
  obtain ⟨materials, initMaterials, rest⟩ := Option.bind_eq_some_iff.mp rest
  obtain ⟨svma, made, rfl⟩ := Option.map_eq_some_iff.mp rest
  obtain ⟨soundTextures, noTextures, -⟩ := ObjectSystem.init_sound initTextures
  obtain ⟨soundGeos, noGeos, -⟩ := ObjectSystem.init_sound initGeos
  obtain ⟨soundMaterials, noMaterials, -⟩ := ObjectSystem.init_sound initMaterials
  refine ⟨soundTextures, soundGeos, soundMaterials, ?_, ?_⟩
  · intro material member
    rw [show materials.objects = [] from noMaterials] at member
    cases member
  rw [← List.dropLast_concat_getLast some0] at made
  unfold Svma.createEach at made
  rw [List.map_append, List.foldlM_append] at made
  obtain ⟨first, others, last⟩ := Option.bind_eq_some_iff.mp made
  rw [List.map_singleton, List.foldlM_cons] at last
  obtain ⟨second, created, ended⟩ := Option.bind_eq_some_iff.mp last
  cases ended
  refine ((svmaInit_places.loseAll others).create created rfl).congr (fun label => ?_) fun label => ?_
  · obtain ⟨site, n⟩ := label
    have vacant : ∀ {α : Type} (system : ObjectSystem α) (part : α → Nat), system.objects = [] →
        system.place part n = none := by
      intro α system part empty
      exact ObjectSystem.place_none (by
        rw [empty]
        exact Nat.zero_le n)
    cases site with
    | texture =>
      rw [Function.update_of_ne (by simp)]
      exact vacant _ _ noTextures
    | indexBuffer =>
      rw [Function.update_of_ne (by simp)]
      exact vacant _ _ noGeos
    | vertexBuffer =>
      rw [Function.update_of_ne (by simp)]
      exact vacant _ _ noGeos
    | set0Buffer =>
      simp only [RendererMemory.place, Function.update_apply, AllocationTracking.mk.injEq, true_and]
      rw [List.getLast?_eq_getLast_of_ne_nil some0]
      rfl
    | _ => exact (Function.update_of_ne (by simp) _ _).symm
  · obtain ⟨site, n⟩ := label
    cases site with
    | uniformBuffer =>
      simp only [RendererMemory.lost, noMaterials, AllocationTracking.mk.injEq, reduceCtorEq, false_and,
        if_false]
      rfl
    | set0Buffer =>
      simp only [RendererMemory.lost, AllocationTracking.mk.injEq, true_and, List.length_map,
        List.length_dropLast, Nat.zero_add]
    | _ =>
      rw [if_neg (by simp)]
      rfl

/-- Every state of a run. -/
theorem memoryRun_sound (some0 : set0 ≠ []) (started : rendererMemoryInit E selfs mem set0 = some start)
    (ran : run (memoryStep E) start ops = some s) : MemorySound E set0 s :=
  run_invariant (fun _ _ _ sound done => memoryStep_sound sound done) ran
    (rendererMemoryInit_sound some0 started)

/-- **Nothing is left in the systems**, and the buffer of set 0 goes. -/
theorem MemorySound.deinit (sound : MemorySound E set0 s) :
    (rendererDeinit E s).Places (fun t => match t with
      | ⟨.colorImage, window⟩ => s.place ⟨.colorImage, window⟩
      | ⟨.depthImage, window⟩ => s.place ⟨.depthImage, window⟩
      | _ => none) (s.lost set0) := by
  have set0Freed := sound.places.free (show s.place ⟨.set0Buffer, 0⟩ = some s.set0_buffer.allocation from rfl)
  obtain ⟨nodupTextures, deinitTextures⟩ := ObjectSystem.deinit_spec sound.textures
  obtain ⟨nodupGeos, deinitGeos⟩ := ObjectSystem.deinit_spec sound.geos
  have textures := s.freeTextures set0Freed nodupTextures (fun n member => (deinitTextures n).mp member)
    fun _ => Function.update_of_ne (by simp) _ _
  have geos := s.freeGeos textures nodupGeos (fun n member => (deinitGeos n).mp member) fun _ =>
    ⟨(if_neg (by simp)).trans (Function.update_of_ne (by simp) _ _),
      (if_neg (by simp)).trans (Function.update_of_ne (by simp) _ _)⟩
  unfold rendererDeinit
  simp only [sound.freeMaterials]
  refine geos.congr (fun label => ?_) fun _ => rfl
  obtain ⟨site, n⟩ := label
  have gone : ∀ {α : Type} (system : ObjectSystem α) (part : α → Nat) (slots : List Nat),
      (∀ n, n ∈ slots ↔ n < system.objects.length ∧ n ∉ system.session.map.freed) →
      (if n ∈ slots then none else system.place part n) = none := by
    intro α system part slots all
    split
    · rfl
    · next kept =>
      rw [all, not_and_or, not_lt, not_not] at kept
      rcases kept with outside | freed
      · exact ObjectSystem.place_none outside
      · exact if_pos freed
  cases site with
  | texture =>
    simp only [List.mem_cons, List.not_mem_nil, reduceCtorEq, or_false, and_false, if_false, and_true,
      Function.update_apply, AllocationTracking.mk.injEq, false_and]
    exact (gone s.textures _ _ deinitTextures).symm
  | indexBuffer =>
    simp only [List.mem_cons, List.not_mem_nil, reduceCtorEq, or_false, and_false, if_false,
      and_true, Function.update_apply, AllocationTracking.mk.injEq, false_and]
    exact (gone s.geos _ _ deinitGeos).symm
  | vertexBuffer =>
    simp only [List.mem_cons, List.not_mem_nil, reduceCtorEq, or_false, and_false, if_false,
      and_true, Function.update_apply, AllocationTracking.mk.injEq, false_and, or_true]
    exact (gone s.geos _ _ deinitGeos).symm
  | set0Buffer =>
    simp only [List.mem_cons, List.not_mem_nil, reduceCtorEq, or_false, and_false, if_false,
      Function.update_apply, AllocationTracking.mk.injEq, true_and, RendererMemory.place]
    split
    · rfl
    · rfl
  | _ =>
    simp only [List.mem_cons, List.not_mem_nil, reduceCtorEq, or_false, and_false, if_false,
      Function.update_apply, AllocationTracking.mk.injEq, false_and, RendererMemory.place]

/-- **The leak report of the renderer is exact.** In every run of textures, meshes, materials, uploads and
windows, in any order and with any copies and drops of handles, ended by `vd_renderer_deinit`: nothing was
freed that the device did not hold, and what `svma_deinit` reports is every uniform buffer of every material
that was ever made, both images of each window that is still open, and the buffers of set 0 but one. -/
theorem device_memory_reported (some0 : set0 ≠ [])
    (started : rendererMemoryInit E selfs mem set0 = some start)
    (ran : run (memoryStep E) start ops = some s) :
    (rendererDeinit E s).faults = [] ∧
      ∀ t, (svmaDeinit (rendererDeinit E s)).count t = s.leaks set0 t := by
  have sound := memoryRun_sound some0 started ran
  refine ⟨sound.deinit.faults, fun t => ?_⟩
  rw [sound.deinit.report]
  obtain ⟨site, n⟩ := t
  have opened : ∀ part : Texture × Texture → Nat,
      ((s.windows n).map part).toList.length = if (s.windows n).isSome then 1 else 0 := by
    intro part
    cases s.windows n <;> rfl
  cases site with
  | colorImage => exact opened _
  | depthImage => exact opened _
  | _ => exact Nat.zero_add _

/-- Three handle maps of small objects. -/
def threePairs : MemoryEnv := ⟨pairEnv, pairEnv, pairEnv⟩

/-- A texture, a mesh, a material with one uniform buffer and a window; the mesh is written and dropped, and so
is the material. -/
def memoryOps : List (MemoryOp threePairs) :=
  [.textureNew ⟨1, 2, 10⟩ (pairValue 1 2), .meshNew ⟨2, 1⟩ ⟨⟨3, 11⟩, ⟨4, 12⟩, 5⟩ (pairValue 3 4),
    .materialNew [⟨.struct, 16, 0⟩] [⟨6, 13⟩] (pairValue 5 6), .windowSet 7 ⟨7, 8, 14⟩ ⟨9, 10, 15⟩,
    .writeMesh 0 ⟨3, 3⟩ ⟨11, 16⟩ ⟨⟨12, 11⟩, ⟨13, 12⟩, 14⟩, .drop 0 .materials, .drop 0 .geos]

theorem memoryOps_defined : ((rendererMemoryInit threePairs (fun _ => 8) (fun _ _ => 0) [⟨9, 9⟩]).bind
    fun start => run (memoryStep threePairs) start memoryOps).isSome = true := by
  decide +kernel

/-- The report of the run. -/
theorem device_memory_reported_run : ∃ start s,
    rendererMemoryInit threePairs (fun _ => 8) (fun _ _ => 0) [⟨9, 9⟩] = some start ∧
    run (memoryStep threePairs) start memoryOps = some s ∧ (rendererDeinit threePairs s).faults = [] ∧
    (svmaDeinit (rendererDeinit threePairs s)).count ⟨.uniformBuffer, 0⟩ =
      s.leaks [⟨9, 9⟩] ⟨.uniformBuffer, 0⟩ := by
  obtain ⟨s, reached⟩ := Option.isSome_iff_exists.mp memoryOps_defined
  obtain ⟨start, started, ran⟩ := Option.bind_eq_some_iff.mp reached
  obtain ⟨faults, report⟩ := device_memory_reported (List.cons_ne_nil _ _) started ran
  exact ⟨start, s, started, ran, faults, report _⟩

/-- **Nothing is freed early.** In every state of every run nothing was freed that the device did not hold,
the device holds the allocation of every texture and both allocations of every mesh that an undropped handle
leads to, and the images of every open window. -/
theorem device_memory_held (some0 : set0 ≠ [])
    (started : rendererMemoryInit E selfs mem set0 = some start)
    (ran : run (memoryStep E) start ops = some s) :
    s.svma.faults = [] ∧
    (∀ token slot image, s.textures.use E.textures token = some (slot, image) →
      image.allocation ∈ s.svma.vma.map Prod.fst) ∧
    (∀ token slot mesh, s.geos.use E.geos token = some (slot, mesh) →
      mesh.index.allocation ∈ s.svma.vma.map Prod.fst ∧ mesh.vertex.allocation ∈ s.svma.vma.map Prod.fst) ∧
    ∀ window images, s.windows window = some images →
      images.1.allocation ∈ s.svma.vma.map Prod.fst ∧ images.2.allocation ∈ s.svma.vma.map Prod.fst := by
  have sound := memoryRun_sound some0 started ran
  refine ⟨sound.places.faults, fun token slot image used => ?_, fun token slot mesh used => ?_,
    fun window images opened => ?_⟩
  · obtain ⟨here, live⟩ := ObjectSystem.use_spec sound.textures used
    exact sound.places.held (show s.place ⟨.texture, slot⟩ = _ from ObjectSystem.place_here here live)
  · obtain ⟨here, live⟩ := ObjectSystem.use_spec sound.geos used
    exact ⟨sound.places.held (show s.place ⟨.indexBuffer, slot⟩ = _ from ObjectSystem.place_here here live),
      sound.places.held (show s.place ⟨.vertexBuffer, slot⟩ = _ from ObjectSystem.place_here here live)⟩
  · exact ⟨sound.places.held (show s.place ⟨.colorImage, window⟩ = _ from congrArg (Option.map _) opened),
      sound.places.held (show s.place ⟨.depthImage, window⟩ = _ from congrArg (Option.map _) opened)⟩

/-- The textures of the run. -/
theorem device_memory_held_run : ∃ start s,
    rendererMemoryInit threePairs (fun _ => 8) (fun _ _ => 0) [⟨9, 9⟩] = some start ∧
    run (memoryStep threePairs) start memoryOps = some s ∧ s.svma.faults = [] := by
  obtain ⟨s, reached⟩ := Option.isSome_iff_exists.mp memoryOps_defined
  obtain ⟨start, started, ran⟩ := Option.bind_eq_some_iff.mp reached
  exact ⟨start, s, started, ran, (device_memory_held (List.cons_ne_nil _ _) started ran).1⟩

end Runs

end Vaudou
