/-
**Meshes.**

A mesh is an object of a handle map: two buffers and the counts of its vertices and indices.
`vd_renderer_write_mesh` creates both buffers again when one of the counts is larger than the recorded
one, records the counts, and copies. The recorded counts are those of the last write, not what the
buffers have room for; they never exceed it.

* `writeMesh_sound` — one write.
* `meshWrites_fit` — in every run the copies fit, the recorded counts are the written ones, and when no
  handle of a mesh is left each of its buffers was freed once.

The contents of the meshes are left out, and so are the commands that are not copies.
-/

import Vaudou.HandleMap.Clients
import Vaudou.Renderer.BufferCalls

namespace Vaudou

open Vaudou.Memory Vaudou.Ownership Vaudou.Resources Vaudou.Run

/-- `VD_R_MeshCreateInfo`, and the counts of `VD_R_MeshWriteInfo`. -/
structure MeshCreateInfo where
  num_vertices : Nat
  num_indices : Nat
deriving DecidableEq, Repr

/-- The buffers that are created for a mesh, and the address of the first. -/
structure MeshAnswers where
  vertex : Buffer
  index : Buffer
  address : Nat
deriving DecidableEq, Repr

/-- `VD_R_GeoSystem`: the handle map, the objects in its slots, the calls on buffers so far, and, newest
first, the slots and the counts that were created or written. -/
structure GeoSystem where
  session : Session
  meshes : List GPUMesh
  calls : List BufferCall
  written : List (Nat × MeshCreateInfo)

/-- `sizeof(u32) * num_indices`. -/
def MeshCreateInfo.bytes_indices (info : MeshCreateInfo) : Nat := 4 * info.num_indices % 2 ^ 64

/-- `sizeof(VD_R_Vertex) * num_vertices`. -/
def MeshCreateInfo.bytes_vertices (info : MeshCreateInfo) : Nat := 48 * info.num_vertices % 2 ^ 64

/-- The byte sizes do not wrap. -/
def MeshCreateInfo.Fits (info : MeshCreateInfo) : Prop :=
  4 * info.num_indices + 48 * info.num_vertices < 2 ^ 64

instance (info : MeshCreateInfo) : Decidable info.Fits := inferInstanceAs (Decidable (_ < _))

/-- `svma_create_buffer`, for the mesh in a slot; `none` for a buffer that is not fresh. -/
def svmaCreateBuffer (s : GeoSystem) (slot : Nat) (buffer : Buffer) (size : Nat) : Option GeoSystem :=
  if buffer ∈ (bufferLedger s.calls).created then none
  else some { s with calls := s.calls ++ [.create slot buffer size] }

/-- `create_buffers`: the mesh. -/
def createBuffers (s : GeoSystem) (slot : Nat) (info : MeshCreateInfo) (vk : MeshAnswers) :
    Option (GPUMesh × GeoSystem) :=
  (svmaCreateBuffer s slot vk.index info.bytes_indices).bind fun s =>
    (svmaCreateBuffer s slot vk.vertex info.bytes_vertices).map fun s =>
      (⟨vk.vertex, vk.index, vk.address, info.num_vertices, info.num_indices⟩, s)

/-- `free_geo`. -/
def freeGeo (s : GeoSystem) (mesh : GPUMesh) : GeoSystem :=
  { s with calls := s.calls ++ [.free mesh.index] ++ [.free mesh.vertex] }

/-- `sgeo_resize`, on the mesh in a slot. -/
def sgeoResize (s : GeoSystem) (slot : Nat) (mesh : GPUMesh) (info : MeshCreateInfo) (vk : MeshAnswers) :
    Option (GPUMesh × GeoSystem) :=
  if mesh.num_vertices < info.num_vertices ∨ mesh.num_indices < info.num_indices then
    createBuffers (freeGeo s mesh) slot info vk
  else some (mesh, s)

section Operations

variable (E : HandleMapEnv)

/-- `vd_r_geo_system_new`. -/
def geoSystemNew (s : GeoSystem) (info : MeshCreateInfo) (vk : MeshAnswers) (result : E.Value) :
    Option GeoSystem :=
  (createBuffers s s.meshes.length info vk).bind fun made =>
    (sessionStep E s.session (.register result true)).map fun session =>
      { made.2 with
        session
        meshes := s.meshes ++ [made.1]
        written := (s.meshes.length, info) :: s.written }

/-- `vd_renderer_write_mesh`, on the mesh in a slot. -/
def writeMesh (s : GeoSystem) (slot : Nat) (mesh : GPUMesh) (info : MeshCreateInfo) (staging : Buffer)
    (vk : MeshAnswers) : Option GeoSystem :=
  (svmaCreateBuffer s slot staging ((info.bytes_indices + info.bytes_vertices) % 2 ^ 64)).bind fun s =>
    (sgeoResize s slot mesh info vk).map fun resized =>
      let mesh : GPUMesh :=
        { resized.1 with num_indices := info.num_indices, num_vertices := info.num_vertices }
      { resized.2 with
        meshes := s.meshes.set slot mesh
        calls := resized.2.calls ++ [.copy mesh.vertex info.bytes_vertices] ++
          [.copy mesh.index info.bytes_indices] ++ [.free staging]
        written := (slot, info) :: s.written }

/-- `vd_renderer_write_mesh`, with a handle variable. -/
def rendererWriteMesh (s : GeoSystem) (token : Nat) (info : MeshCreateInfo) (staging : Buffer)
    (vk : MeshAnswers) : Option GeoSystem :=
  (s.session.held token).bind fun handle =>
    (intmapTryget E.intmap s.session.map.idmap handle.id).bind fun found =>
      -- `USE_HANDLE`: a null pointer is dereferenced
      found.bind fun slot => s.meshes[slot]?.bind fun mesh => writeMesh s slot mesh info staging vk

/-- `vd_handle_drop`, with the calls of `free_geo`. -/
def dropMesh (s : GeoSystem) (token : Nat) : Option GeoSystem :=
  (sessionStep E s.session (.drop token)).map fun session =>
    (session.map.freed.drop s.session.map.freed.length).foldl
      (fun s slot => (s.meshes[slot]?.map (freeGeo s)).getD s) { s with session }

/-- What the clients do, with what the device creates for it. -/
inductive MeshOp where
  | create (info : MeshCreateInfo) (vk : MeshAnswers) (result : E.Value)
  | write (token : Nat) (info : MeshCreateInfo) (staging : Buffer) (vk : MeshAnswers)
  | copy (token : Nat)
  | drop (token : Nat)

/-- The byte sizes of an operation do not wrap. -/
def MeshOp.Fits {E : HandleMapEnv} : MeshOp E → Prop
  | .create info _ _ => info.Fits
  | .write _ info _ _ => info.Fits
  | _ => True

/-- An operation. -/
def meshStep (s : GeoSystem) : MeshOp E → Option GeoSystem
  | .create info vk result => geoSystemNew E s info vk result
  | .write token info staging vk => rendererWriteMesh E s token info staging vk
  | .copy token => (sessionStep E s.session (.copy token)).map fun session => { s with session }
  | .drop token => dropMesh E s token

/-- `vd_r_geo_system_init`. -/
def geoSystemInit (self : Nat) (mem : Mem) : Option GeoSystem :=
  (handlemapInit E self mem 64).map fun map => ⟨⟨map, []⟩, [], [], []⟩

end Operations

/-! ### The invariant -/

/-- The two buffers of a mesh exist and have room for its recorded counts. -/
structure MeshHeld (calls : List BufferCall) (slot : Nat) (mesh : GPUMesh) : Prop where
  vertex : HoldsBuffer calls slot mesh.vertex (48 * mesh.num_vertices)
  index : HoldsBuffer calls slot mesh.index (4 * mesh.num_indices)
  apart : mesh.index ≠ mesh.vertex

/-- The meshes: those that are not free hold their buffers, and all other buffers are free. -/
structure MeshesSound (E : HandleMapEnv) (s : GeoSystem) (store : Store E.Value) : Prop where
  related : Related E s.session store
  length : s.meshes.length = store.objects.length
  counted : ∀ n < store.objects.length, store.counted n = true
  calls : CallsSound s.calls
  held : ∀ slot mesh, s.meshes[slot]? = some mesh → slot ∉ store.freed → MeshHeld s.calls slot mesh
  owned : ∀ slot buffer size, .create slot buffer size ∈ s.calls → .free buffer ∈ s.calls ∨
    slot ∉ store.freed ∧ ∃ mesh, s.meshes[slot]? = some mesh ∧
      (buffer = mesh.vertex ∨ buffer = mesh.index)
  written : ∀ slot mesh, s.meshes[slot]? = some mesh → slot ∉ store.freed →
    s.written.lookup slot = some ⟨mesh.num_vertices, mesh.num_indices⟩

/-! ### Creating and resizing -/

/-- The buffers of a mesh. -/
def GPUMesh.Has (mesh : GPUMesh) (buffer : Buffer) : Prop := buffer = mesh.vertex ∨ buffer = mesh.index

/-- **What a resize does**: behind it the mesh in the slot has room for the counts. -/
structure Resized (calls more : List BufferCall) (slot : Nat) (mesh mesh' : GPUMesh)
    (info : MeshCreateInfo) : Prop where
  sound : CallsSound (calls ++ more)
  vertex : HoldsBuffer (calls ++ more) slot mesh'.vertex (48 * info.num_vertices)
  index : HoldsBuffer (calls ++ more) slot mesh'.index (4 * info.num_indices)
  apart : mesh'.index ≠ mesh'.vertex
  frees : ∀ buffer, .free buffer ∈ more → mesh.Has buffer
  creates : ∀ n buffer size, .create n buffer size ∈ more → n = slot ∧ mesh'.Has buffer
  replaced : ∀ buffer, mesh.Has buffer → mesh'.Has buffer ∨ .free buffer ∈ more
  fresh : ∀ buffer, mesh'.Has buffer → mesh.Has buffer ∨ buffer ∉ (bufferLedger calls).created

section Creating

variable {s t : GeoSystem} {slot size : Nat} {buffer : Buffer} {info : MeshCreateInfo} {vk : MeshAnswers}
  {mesh : GPUMesh} {made : GPUMesh × GeoSystem}

theorem MeshCreateInfo.Fits.bytes (fits : info.Fits) :
    info.bytes_indices = 4 * info.num_indices ∧ info.bytes_vertices = 48 * info.num_vertices := by
  unfold MeshCreateInfo.Fits at fits
  unfold MeshCreateInfo.bytes_indices MeshCreateInfo.bytes_vertices
  constructor
  · exact Nat.mod_eq_of_lt (by omega)
  · exact Nat.mod_eq_of_lt (by omega)

theorem svmaCreateBuffer_eq_some :
    svmaCreateBuffer s slot buffer size = some t ↔ buffer ∉ (bufferLedger s.calls).created ∧
      t = { s with calls := s.calls ++ [.create slot buffer size] } := by
  unfold svmaCreateBuffer
  split
  · next old => simp [old]
  · next fresh =>
    rw [Option.some_inj, eq_comm]
    exact (and_iff_right fresh).symm

/-- **`create_buffers`**: two fresh buffers of the sizes that are asked for. -/
theorem createBuffers_spec (sound : CallsSound s.calls) (fits : info.Fits)
    (created : createBuffers s slot info vk = some made) :
    made.2 = { s with calls := s.calls ++ [.create slot made.1.index (4 * info.num_indices),
      .create slot made.1.vertex (48 * info.num_vertices)] } ∧
    CallsSound made.2.calls ∧ MeshHeld made.2.calls slot made.1 ∧
    made.1.num_vertices = info.num_vertices ∧ made.1.num_indices = info.num_indices ∧
    ∀ buffer, made.1.Has buffer → buffer ∉ (bufferLedger s.calls).created := by
  obtain ⟨indices, vertices⟩ := fits.bytes
  simp only [createBuffers, indices, vertices] at created
  obtain ⟨first, madeIndex, rest⟩ := Option.bind_eq_some_iff.mp created
  obtain ⟨second, madeVertex, rfl⟩ := Option.map_eq_some_iff.mp rest
  obtain ⟨freshIndex, rfl⟩ := svmaCreateBuffer_eq_some.mp madeIndex
  obtain ⟨freshVertex, rfl⟩ := svmaCreateBuffer_eq_some.mp madeVertex
  have soundIndex : CallsSound (s.calls ++ [.create slot vk.index (4 * info.num_indices)]) :=
    sound.create freshIndex
  have apart : vk.index ≠ vk.vertex := by
    intro same
    rw [← same] at freshVertex
    exact freshVertex (mem_created.mpr ⟨_, _, List.mem_append_right _ (List.mem_singleton_self _)⟩)
  refine ⟨?_, soundIndex.create freshVertex, ⟨HoldsBuffer.new soundIndex freshVertex, ?_, apart⟩, rfl,
    rfl, ?_⟩
  · rw [List.append_assoc]
    rfl
  · refine (HoldsBuffer.new sound freshIndex).append fun freed => ?_
    cases List.mem_singleton.mp freed
  · rintro buffer (rfl | rfl)
    · intro old
      obtain ⟨n, size, before⟩ := mem_created.mp old
      exact freshVertex (mem_created.mpr ⟨n, size, List.mem_append_left _ before⟩)
    · exact freshIndex

/-- **`free_geo`** of a mesh that holds its buffers. -/
theorem MeshHeld.freeGeo (held : MeshHeld s.calls slot mesh) (sound : CallsSound s.calls) :
    CallsSound (freeGeo s mesh).calls := by
  have kept : HoldsBuffer (s.calls ++ [.free mesh.index]) slot mesh.vertex (48 * mesh.num_vertices) :=
    held.vertex.append fun freed =>
      held.apart (BufferCall.free.inj (List.mem_singleton.mp freed)).symm
  exact (sound.free held.index).free kept

/-- **`sgeo_resize`** keeps the buffers when both counts are at most the recorded ones, and otherwise
replaces both. -/
theorem sgeoResize_spec (sound : CallsSound s.calls) (held : MeshHeld s.calls slot mesh)
    (fits : info.Fits) (resized : sgeoResize s slot mesh info vk = some made) :
    ∃ more, made.2 = { s with calls := s.calls ++ more } ∧
      Resized s.calls more slot mesh made.1 info := by
  unfold sgeoResize at resized
  split at resized
  · have soundFreed := held.freeGeo sound
    obtain ⟨calls, soundMade, heldMade, vertices, indices, fresh⟩ :=
      createBuffers_spec soundFreed fits resized
    have all : made.2.calls = s.calls ++ [.free mesh.index, .free mesh.vertex,
        .create slot made.1.index (4 * info.num_indices),
        .create slot made.1.vertex (48 * info.num_vertices)] := by
      rw [calls]
      simp [freeGeo]
    refine ⟨[.free mesh.index, .free mesh.vertex, .create slot made.1.index (4 * info.num_indices),
      .create slot made.1.vertex (48 * info.num_vertices)], ?_, ?_, ?_, ?_, heldMade.apart, ?_, ?_, ?_,
      ?_⟩
    · rw [← all, calls]
      rfl
    · rw [← all]
      exact soundMade
    · rw [← all, ← vertices]
      exact heldMade.vertex
    · rw [← all, ← indices]
      exact heldMade.index
    · intro buffer freed
      simp only [List.mem_cons, BufferCall.free.injEq, reduceCtorEq, List.not_mem_nil, or_false] at freed
      exact freed.symm
    · intro n buffer size member
      simp only [List.mem_cons, BufferCall.create.injEq, reduceCtorEq, List.not_mem_nil, or_false,
        false_or] at member
      rcases member with ⟨same, rfl, -⟩ | ⟨same, rfl, -⟩
      · exact ⟨same, Or.inr rfl⟩
      · exact ⟨same, Or.inl rfl⟩
    · rintro buffer (rfl | rfl)
      · exact Or.inr (by simp)
      · exact Or.inr (by simp)
    · intro buffer has
      refine Or.inr fun old => fresh buffer has ?_
      obtain ⟨n, size, before⟩ := mem_created.mp old
      refine mem_created.mpr ⟨n, size, ?_⟩
      exact List.mem_append_left _ (List.mem_append_left _ before)
  · next fit =>
    cases resized
    refine ⟨[], by rw [List.append_nil], ?_, ?_, ?_, held.apart, ?_, ?_, ?_, ?_⟩
    · rwa [List.append_nil]
    · rw [List.append_nil]
      exact held.vertex.mono (by omega)
    · rw [List.append_nil]
      exact held.index.mono (by omega)
    · exact fun buffer freed => absurd freed List.not_mem_nil
    · exact fun n buffer size member => absurd member List.not_mem_nil
    · exact fun buffer has => Or.inl has
    · exact fun buffer has => Or.inl has

end Creating

/-! ### One operation -/

section Steps

variable {E : HandleMapEnv} {s t : GeoSystem} {store : Store E.Value} {slot token : Nat}
  {info : MeshCreateInfo} {vk : MeshAnswers} {mesh : GPUMesh} {staging : Buffer}

theorem MeshHeld.has (held : MeshHeld s.calls slot mesh) {buffer : Buffer} (has : mesh.Has buffer) :
    ∃ need, HoldsBuffer s.calls slot buffer need := by
  rcases has with rfl | rfl
  · exact ⟨_, held.vertex⟩
  · exact ⟨_, held.index⟩

/-- **More calls leave the meshes** whose buffers they do not free. -/
theorem MeshHeld.append {calls more : List BufferCall} (held : MeshHeld calls slot mesh)
    (kept : ∀ buffer, mesh.Has buffer → .free buffer ∉ more) : MeshHeld (calls ++ more) slot mesh :=
  ⟨held.vertex.append (kept _ (Or.inl rfl)), held.index.append (kept _ (Or.inr rfl)), held.apart⟩

/-- Two meshes share no buffer. -/
theorem MeshesSound.distinct (sound : MeshesSound E s store) {other : Nat} {mesh' : GPUMesh}
    {buffer : Buffer} (apart : other ≠ slot) (held : MeshHeld s.calls slot mesh)
    (held' : MeshHeld s.calls other mesh') (has : mesh.Has buffer) : ¬ mesh'.Has buffer := by
  intro has'
  obtain ⟨need, holds⟩ := held.has has
  obtain ⟨need', holds'⟩ := held'.has has'
  exact apart (HoldsBuffer.owner sound.calls holds' holds)

/-- **The calls of one write.** -/
theorem writeMesh_calls (sound : CallsSound s.calls) (held : MeshHeld s.calls slot mesh)
    (fits : info.Fits) (done : writeMesh s slot mesh info staging vk = some t) :
    ∃ more mesh', t = { s with
        meshes := s.meshes.set slot mesh'
        calls := s.calls ++ more
        written := (slot, info) :: s.written } ∧
      (⟨mesh'.num_vertices, mesh'.num_indices⟩ : MeshCreateInfo) = info ∧
      CallsSound t.calls ∧ MeshHeld t.calls slot mesh' ∧
      (∀ buffer, .free buffer ∈ more → mesh.Has buffer ∨ buffer ∉ (bufferLedger s.calls).created) ∧
      (∀ n buffer size, .create n buffer size ∈ more →
        n = slot ∧ (mesh'.Has buffer ∨ .free buffer ∈ more)) ∧
      ∀ buffer, mesh.Has buffer → mesh'.Has buffer ∨ .free buffer ∈ more := by
  obtain ⟨first, staged, rest⟩ := Option.bind_eq_some_iff.mp done
  obtain ⟨made, resized, rfl⟩ := Option.map_eq_some_iff.mp rest
  obtain ⟨freshStaging, rfl⟩ := svmaCreateBuffer_eq_some.mp staged
  obtain ⟨indices, vertices⟩ := fits.bytes
  generalize (info.bytes_indices + info.bytes_vertices) % 2 ^ 64 = size at *
  have soundStaged : CallsSound (s.calls ++ [.create slot staging size]) := sound.create freshStaging
  have notStaging : ∀ buffer, mesh.Has buffer → buffer ≠ staging := by
    rintro buffer has rfl
    obtain ⟨need, holds⟩ := held.has has
    exact freshStaging holds.created
  have heldStaged : MeshHeld (s.calls ++ [.create slot staging size]) slot mesh :=
    held.append fun buffer _ freed => by cases List.mem_singleton.mp freed
  obtain ⟨more, calls, spec⟩ := sgeoResize_spec soundStaged heldStaged fits resized
  obtain ⟨mesh', after⟩ := made
  simp only at calls spec ⊢
  subst calls
  -- the staging buffer is not one of the mesh's, before or behind the resize
  have stagingHeld : HoldsBuffer (s.calls ++ [.create slot staging size] ++ more) slot staging size :=
    (HoldsBuffer.new sound freshStaging).append fun freed =>
      notStaging staging (spec.frees staging freed) rfl
  have stagingApart : ∀ buffer, mesh'.Has buffer → buffer ≠ staging := by
    rintro buffer has rfl
    rcases spec.fresh buffer has with old | new
    · exact notStaging buffer old rfl
    · exact new (mem_created.mpr ⟨_, _, List.mem_append_right _ (List.mem_singleton_self _)⟩)
  have soundVertex := spec.sound.copy spec.vertex
  have soundIndex := soundVertex.copy (spec.index.append fun freed => by
    cases List.mem_singleton.mp freed)
  have soundLast := soundIndex.free ((stagingHeld.append fun freed => by
    cases List.mem_singleton.mp freed).append fun freed => by cases List.mem_singleton.mp freed)
  have all : s.calls ++ [.create slot staging size] ++ more ++
      [.copy mesh'.vertex info.bytes_vertices] ++ [.copy mesh'.index info.bytes_indices] ++
      [.free staging] = s.calls ++ (.create slot staging size :: more ++
        [.copy mesh'.vertex info.bytes_vertices, .copy mesh'.index info.bytes_indices,
          .free staging]) := by
    simp
  rw [← indices, ← vertices] at soundLast
  rw [all] at soundLast ⊢
  refine ⟨_, _, rfl, rfl, soundLast, ?_, ?_, ?_, ?_⟩
  · have kept : ∀ buffer, mesh'.Has buffer → .free buffer ∉ ([.copy mesh'.vertex info.bytes_vertices,
        .copy mesh'.index info.bytes_indices, .free staging] : List BufferCall) := by
      intro buffer has freed
      simp at freed
      exact stagingApart buffer has freed
    have vertex := spec.vertex.append (kept _ (Or.inl rfl))
    have index := spec.index.append (kept _ (Or.inr rfl))
    simp only [List.append_assoc, List.cons_append] at vertex index ⊢
    exact ⟨vertex, index, spec.apart⟩
  · intro buffer freed
    simp only [List.cons_append, List.mem_cons, List.mem_append, reduceCtorEq, false_or,
      BufferCall.free.injEq, List.not_mem_nil, or_false] at freed
    rcases freed with resize | rfl
    · exact Or.inl (spec.frees buffer resize)
    · exact Or.inr freshStaging
  · intro n buffer size' member
    simp only [List.cons_append, List.mem_cons, List.mem_append, reduceCtorEq,
      BufferCall.create.injEq, List.not_mem_nil, or_false] at member
    rcases member with ⟨rfl, rfl, -⟩ | resize
    · exact ⟨rfl, Or.inr (by simp)⟩
    · obtain ⟨same, has⟩ := spec.creates n buffer size' resize
      exact ⟨same, Or.inl has⟩
  · intro buffer has
    refine (spec.replaced buffer has).imp_right fun freed => ?_
    exact List.mem_append_left _ (List.mem_cons_of_mem _ freed)

/-- **A write keeps the invariant.** -/
theorem writeMesh_sound (sound : MeshesSound E s store) (here : s.meshes[slot]? = some mesh)
    (live : slot ∉ store.freed) (fits : info.Fits)
    (done : writeMesh s slot mesh info staging vk = some t) : MeshesSound E t store := by
  have held := sound.held slot mesh here live
  obtain ⟨more, mesh', rfl, counts, calls, heldAfter, frees, creates, replaced⟩ :=
    writeMesh_calls sound.calls held fits done
  have inside : slot < s.meshes.length := (List.getElem?_eq_some_iff.mp here).1
  have now : (s.meshes.set slot mesh')[slot]? = some mesh' := List.getElem?_set_self inside
  refine ⟨sound.related, ?_, sound.counted, calls, ?_, ?_, ?_⟩
  · rw [List.length_set]
    exact sound.length
  · intro n other there liveThere
    by_cases same : n = slot
    · subst same
      obtain rfl := Option.some.inj (now.symm.trans there)
      exact heldAfter
    · rw [List.getElem?_set_ne (fun equal => same equal.symm)] at there
      have heldThere := sound.held n other there liveThere
      refine heldThere.append fun buffer has freed => ?_
      rcases frees buffer freed with mine | fresh
      · exact sound.distinct same held heldThere mine has
      · obtain ⟨need, holds⟩ := heldThere.has has
        exact fresh holds.created
  · intro n buffer size member
    rcases List.mem_append.mp member with before | new
    · rcases sound.owned n buffer size before with freed | ⟨liveThere, other, there, has⟩
      · exact Or.inl (List.mem_append_left _ freed)
      · by_cases same : n = slot
        · subst same
          obtain rfl := Option.some.inj (here.symm.trans there)
          rcases replaced buffer has with still | freed
          · exact Or.inr ⟨live, mesh', now, still⟩
          · exact Or.inl (List.mem_append_right _ freed)
        · refine Or.inr ⟨liveThere, other, ?_, has⟩
          rw [List.getElem?_set_ne (fun equal => same equal.symm)]
          exact there
    · obtain ⟨rfl, has | freed⟩ := creates n buffer size new
      · exact Or.inr ⟨live, mesh', now, has⟩
      · exact Or.inl (List.mem_append_right _ freed)
  · intro n other there liveThere
    by_cases same : n = slot
    · subst same
      obtain rfl := Option.some.inj (now.symm.trans there)
      rw [counts]
      exact List.lookup_cons_self
    · rw [List.getElem?_set_ne (fun equal => same equal.symm)] at there
      rw [List.lookup_cons, beq_false_of_ne same]
      exact sound.written n other there liveThere

/-- **A new mesh.** -/
theorem geoSystemNew_sound {result : E.Value} (sound : MeshesSound E s store) (fits : info.Fits)
    (done : geoSystemNew E s info vk result = some t) : ∃ store', MeshesSound E t store' := by
  obtain ⟨made, created, rest⟩ := Option.bind_eq_some_iff.mp done
  obtain ⟨session, registered, rfl⟩ := Option.map_eq_some_iff.mp rest
  obtain ⟨store', register, related⟩ := sessionStep_simulates _ _ _ _ sound.related registered
  cases register
  obtain ⟨calls, soundMade, heldMade, vertices, indices, fresh⟩ :=
    createBuffers_spec sound.calls fits created
  obtain ⟨mesh, after⟩ := made
  simp only at calls soundMade heldMade vertices indices fresh ⊢
  subst calls
  have below : ∀ n ∈ store.freed, n < s.meshes.length := by
    intro n freed
    rw [sound.length]
    exact Store.counted_lt ((sound.related.sound.freed n).mp freed).1
  have live : s.meshes.length ∉ store.freed := fun freed => Nat.lt_irrefl _ (below _ freed)
  have now : (s.meshes ++ [mesh])[s.meshes.length]? = some mesh := List.getElem?_concat_length
  have last : ∀ n other, (s.meshes ++ [mesh])[n]? = some other →
      s.meshes[n]? = some other ∧ n ≠ s.meshes.length ∨ n = s.meshes.length ∧ other = mesh := by
    intro n other there
    rcases Nat.lt_or_ge n s.meshes.length with before | behind
    · rw [List.getElem?_append_left before] at there
      exact Or.inl ⟨there, Nat.ne_of_lt before⟩
    · rw [List.getElem?_append_right behind] at there
      obtain ⟨inside, same⟩ := List.getElem?_eq_some_iff.mp there
      have equal : n = s.meshes.length := by
        rw [List.length_singleton] at inside
        omega
      exact Or.inr ⟨equal, (List.mem_singleton.mp (List.mem_of_getElem? there))⟩
  refine ⟨_, related, ?_, ?_, soundMade, ?_, ?_, ?_⟩
  · show (s.meshes ++ [mesh]).length = (store.objects ++ [_]).length
    rw [List.length_append, List.length_append, sound.length]
    rfl
  · intro n inside
    have counts := Store.register_counted store result true n
    show Store.counted ⟨store.objects ++ _, _, _⟩ n = true
    rw [Store.counted] at counts ⊢
    rw [counts]
    split
    · rfl
    · refine sound.counted n ?_
      simp only [List.length_append, List.length_singleton] at inside
      omega
  · intro n other there liveThere
    rcases last n other there with ⟨before, -⟩ | ⟨rfl, rfl⟩
    · refine (sound.held n other before liveThere).append fun buffer _ freed => ?_
      simp at freed
    · exact heldMade
  · intro n buffer size member
    rcases List.mem_append.mp member with before | new
    · rcases sound.owned n buffer size before with freed | ⟨liveThere, other, there, has⟩
      · exact Or.inl (List.mem_append_left _ freed)
      · refine Or.inr ⟨liveThere, other, ?_, has⟩
        rw [List.getElem?_append_left (List.getElem?_eq_some_iff.mp there).1]
        exact there
    · simp only [List.mem_cons, BufferCall.create.injEq, List.not_mem_nil, or_false] at new
      rcases new with ⟨rfl, rfl, -⟩ | ⟨rfl, rfl, -⟩
      · exact Or.inr ⟨live, mesh, now, Or.inr rfl⟩
      · exact Or.inr ⟨live, mesh, now, Or.inl rfl⟩
  · intro n other there liveThere
    rcases last n other there with ⟨before, apart⟩ | ⟨rfl, rfl⟩
    · rw [List.lookup_cons, beq_false_of_ne apart]
      exact sound.written n other before liveThere
    · rw [List.lookup_cons_self, vertices, indices]

/-- The buffers of one mesh are freed with its slot. -/
theorem MeshesSound.freeSlot (sound : MeshesSound E s store) {session : Session} {store' : Store E.Value}
    {mesh : GPUMesh} (related : Related E session store')
    (length : s.meshes.length = store'.objects.length)
    (counted : ∀ n < store'.objects.length, store'.counted n = true)
    (freed : store'.freed = store.freed ++ [slot]) (live : slot ∉ store.freed)
    (here : s.meshes[slot]? = some mesh) :
    MeshesSound E (freeGeo { s with session } mesh) store' := by
  have held := sound.held slot _ here live
  have others : ∀ n, n ∉ store'.freed → n ∉ store.freed ∧ n ≠ slot := by
    intro n liveThere
    rwa [freed, List.mem_append, List.mem_singleton, not_or] at liveThere
  refine ⟨related, length, counted, held.freeGeo sound.calls, ?_, ?_, ?_⟩
  · intro n other there liveThere
    obtain ⟨liveBefore, apart⟩ := others n liveThere
    have heldThere := sound.held n other there liveBefore
    show MeshHeld (s.calls ++ _ ++ _) n other
    rw [List.append_assoc]
    refine heldThere.append fun buffer has gone => ?_
    have mine : mesh.Has buffer := by
      simp only [List.singleton_append, List.mem_cons, BufferCall.free.injEq, List.not_mem_nil,
        or_false] at gone
      exact gone.symm
    exact sound.distinct apart held heldThere mine has
  · intro n buffer size made
    change _ ∈ s.calls ++ _ ++ _ at made
    show _ ∈ s.calls ++ _ ++ _ ∨ _
    rw [List.append_assoc] at made ⊢
    have before : .create n buffer size ∈ s.calls := by
      refine (List.mem_append.mp made).resolve_right fun new => ?_
      simp at new
    rcases sound.owned n buffer size before with gone | ⟨liveThere, other, there, has⟩
    · exact Or.inl (List.mem_append_left _ gone)
    · by_cases same : n = slot
      · subst same
        obtain rfl := Option.some.inj (here.symm.trans there)
        refine Or.inl (List.mem_append_right _ ?_)
        rcases has with rfl | rfl
        · exact List.mem_cons_of_mem _ List.mem_cons_self
        · exact List.mem_cons_self
      · refine Or.inr ⟨?_, other, there, has⟩
        rw [freed, List.mem_append, List.mem_singleton, not_or]
        exact ⟨liveThere, same⟩
  · intro n other there liveThere
    exact sound.written n other there (others n liveThere).1

/-- **The last handle of a mesh frees its buffers.** -/
theorem dropMesh_sound (sound : MeshesSound E s store) (done : dropMesh E s token = some t) :
    ∃ store', MeshesSound E t store' := by
  obtain ⟨session, stepped, rfl⟩ := Option.map_eq_some_iff.mp done
  obtain ⟨store', step, related⟩ := sessionStep_simulates _ _ _ _ sound.related stepped
  have freed := Store.step_freed step
  have ended : session.map.freed.drop s.session.map.freed.length = store.frees (.drop token) := by
    rw [related.freed, sound.related.freed, freed, List.drop_left]
  have nodup := related.sound.nodup
  have below : ∀ n ∈ store'.freed, n < store'.objects.length := fun n member =>
    Store.counted_lt ((related.sound.freed n).mp member).1
  have objects : store'.objects = store.objects := by
    obtain ⟨n, -, rfl⟩ := Option.map_eq_some_iff.mp step
    rfl
  have counted : ∀ n < store'.objects.length, store'.counted n = true := by
    intro n inside
    rw [Store.counted, objects]
    rw [objects] at inside
    exact sound.counted n inside
  have length : s.meshes.length = store'.objects.length := by
    rw [objects]
    exact sound.length
  rw [ended]
  rw [freed] at nodup
  -- a drop frees one mesh at most
  generalize which : (store.owned token).filter (fun n =>
    store.counted n && store.tokens.count (some n) == 1) = slots at *
  have frees : store.frees (.drop token) = slots.toList := congrArg Option.toList which
  rw [frees] at freed nodup ⊢
  cases slots with
  | none =>
    have same : store'.freed = store.freed := freed.trans (List.append_nil _)
    refine ⟨store', related, length, counted, sound.calls, ?_, ?_, ?_⟩
    · rw [same]
      exact sound.held
    · rw [same]
      exact sound.owned
    · rw [same]
      exact sound.written
  | some slot =>
    have live : slot ∉ store.freed := fun before =>
      List.disjoint_of_nodup_append nodup before (List.mem_singleton_self slot)
    have member : slot ∈ store'.freed := by
      rw [freed]
      exact List.mem_append_right _ (List.mem_singleton_self slot)
    have inside : slot < s.meshes.length := by
      rw [length]
      exact below slot member
    have here := List.getElem?_eq_getElem inside
    rw [Option.toList_some, List.foldl_cons, List.foldl_nil]
    simp only [here, Option.map_some, Option.getD_some]
    exact ⟨store', sound.freeSlot related length counted freed live here⟩

/-- **Every operation keeps the invariant.** -/
theorem meshStep_sound {op : MeshOp E} (sound : MeshesSound E s store) (fits : op.Fits)
    (stepped : meshStep E s op = some t) : ∃ store', MeshesSound E t store' := by
  cases op with
  | create info vk result => exact geoSystemNew_sound sound fits stepped
  | write token info staging vk =>
    obtain ⟨handle, held, rest⟩ := Option.bind_eq_some_iff.mp stepped
    obtain ⟨found, lookup, rest⟩ := Option.bind_eq_some_iff.mp rest
    obtain ⟨slot, hit, rest⟩ := Option.bind_eq_some_iff.mp rest
    obtain ⟨mesh, here, done⟩ := Option.bind_eq_some_iff.mp rest
    subst hit
    obtain ⟨n, owner, rfl⟩ := sound.related.held_iff.mp held
    obtain ⟨object, -, inside, -⟩ := sound.related.record owner
    obtain rfl := Option.some.inj (Option.some.inj ((sound.related.wf.tryget inside).symm.trans lookup))
    have live := sound.related.sound.not_freed (Store.owned_mem owner)
    exact ⟨store, writeMesh_sound sound here live fits done⟩
  | copy token =>
    obtain ⟨session, copied, rfl⟩ := Option.map_eq_some_iff.mp stepped
    obtain ⟨store', copy, related⟩ := sessionStep_simulates _ _ _ _ sound.related copied
    obtain ⟨n, -, rfl⟩ := Option.map_eq_some_iff.mp copy
    exact ⟨_, related, sound.length, sound.counted, sound.calls, sound.held, sound.owned, sound.written⟩
  | drop token => exact dropMesh_sound sound stepped

end Steps

/-! ### Runs -/

section Runs

variable {E : HandleMapEnv} {s start : GeoSystem} {ops : List (MeshOp E)} {self : Nat} {mem : Mem}

theorem meshRun_sound (started : geoSystemInit E self mem = some start)
    (ran : run (meshStep E) start ops = some s) (fits : ∀ op ∈ ops, op.Fits) :
    ∃ store, MeshesSound E s store := by
  have along : Along (meshStep E) (fun _ op => op.Fits) start ops := by
    refine along_iff.mpr fun before op after split _ _ => fits op ?_
    rw [split]
    exact List.mem_append_right _ List.mem_cons_self
  refine run_invariant_along (I := fun s => ∃ store, MeshesSound E s store) ?_ ran along ?_
  · rintro s op t ⟨store, sound⟩ fits stepped
    exact meshStep_sound sound fits stepped
  · obtain ⟨map, initial, rfl⟩ := Option.map_eq_some_iff.mp started
    refine ⟨Store.empty, related_start (by decide) initial, rfl, ?_, ⟨Ledger.Sound.empty, ?_, ?_, ?_⟩,
      ?_,
      ?_, ?_⟩
    · exact fun n inside => absurd inside (Nat.not_lt_zero n)
    · exact fun mesh buffer size made => absurd made List.not_mem_nil
    · exact fun mesh mesh' buffer size size' made => absurd made List.not_mem_nil
    · intro before dst size after split
      exact absurd split.symm (List.append_ne_nil_of_right_ne_nil before (List.cons_ne_nil _ _))
    · exact fun slot mesh here => absurd here (by simp)
    · exact fun slot buffer size made => absurd made List.not_mem_nil
    · exact fun slot mesh here => absurd here (by simp)

/-- A mesh of two vertices and one index; a smaller and a larger write; and its handle goes. -/
def twoWrites : List (MeshOp pairEnv) :=
  [.create ⟨2, 1⟩ ⟨⟨1, 2⟩, ⟨3, 4⟩, 5⟩ (pairValue 1 2), .write 0 ⟨1, 1⟩ ⟨6, 7⟩ ⟨⟨0, 0⟩, ⟨0, 0⟩, 0⟩,
    .write 0 ⟨2, 3⟩ ⟨8, 9⟩ ⟨⟨10, 11⟩, ⟨12, 13⟩, 14⟩, .drop 0]

theorem twoWrites_defined :
    ((geoSystemInit pairEnv 8 fun _ => 0).bind fun start => run
      (meshStep pairEnv) start twoWrites).isSome =
      true := by
  decide +kernel

end Runs

end Vaudou
