/-
**The uniform buffers of materials.**

`smat_new_from_blueprint` creates a buffer for every struct property, `write_set` writes the bytes of the
properties into the buffers of the material, and `free_material` frees as many as the material counts. The
three go over the same list, but the counter of the first stays at 0, and no one counts the buffers.

* `UniformsMade.step` — what every run leaves: all buffers of a material were put into its first place, and
  none is ever freed.
* **`uniforms_own_iff`** — the struct properties have their own buffers, in every state of a run, exactly
  when no material has two of them and no material that was freed had any.
-/

import Vaudou.Renderer.Materials
import Vaudou.Renderer.Types

namespace Vaudou

open Vaudou.Memory Vaudou.Ownership Vaudou.Run

/-! ### Buffers, and writes of descriptors -/

section Buffers

/-- `BindingInfo`. -/
structure BindingInfo where
  type : BindingType
  struct_size : Nat
deriving DecidableEq, Repr

/-- The `binding` of a property. -/
def MaterialProperty.binding (property : MaterialProperty) : BindingInfo :=
  ⟨property.type, property.struct_size⟩

/-- The bindings of structs, in order. -/
def structBindings (bindings : List BindingInfo) : List BindingInfo :=
  bindings.filter fun binding => binding.type = .struct

/-- The struct properties, in order. -/
def structs (properties : List MaterialProperty) : List MaterialProperty :=
  properties.filter fun property => property.type = .struct

/-- `GPUMaterial`, without the handle of its blueprint; of the array `properties`, the part in use. -/
structure GPUMaterial where
  num_buffers : Nat
  buffers : List Buffer
  properties : List MaterialProperty

/-- `VD_MAX_UNIFORM_BUFFERS_PER_MATERIAL`. -/
def maxUniformBuffers : Nat := 3

/-- A call on a uniform buffer. -/
inductive UniformCall where
  /-- `svma_create_buffer`, for a material -/
  | create (material : Nat) (buffer : Buffer) (size : Nat)
  /-- `svma_map`, the bytes, and `svma_unmap` -/
  | write (buffer : Buffer) (bytes : List UInt8)
  /-- `svma_free_buffer` -/
  | free (buffer : Buffer)
deriving DecidableEq, Repr

/-- The materials and what was called on their buffers, oldest first. -/
structure UniformRun where
  smat : SMat
  gpu : List GPUMaterial
  calls : List UniformCall

/-- `VkWriteDescriptorSet`, with the buffer and the range of a uniform buffer. -/
structure DescriptorWrite where
  dstBinding : Nat
  descriptorType : Nat
  bufferInfo : Option (Nat × Nat)
deriving DecidableEq, Repr

/-- `binding_type_to_vk_descriptor_type`. -/
def bindingTypeToVkDescriptorType : BindingType → Nat
  | .invalid => 0
  | .sampler2d => 1
  | .struct => 6

/-- A buffer of `GPUMaterial result = {0}`. -/
def noBuffer : Buffer := ⟨0, 0⟩

/-- The loop of `smat_new_from_blueprint` over the properties; the device returns `created`. -/
def createUniformBuffers (buffer_index : Nat) :
    List BindingInfo → (created buffers : List Buffer) → List Buffer
  | [], _, buffers => buffers
  | binding :: rest, created, buffers =>
    if binding.type = .struct then
      -- `buffer_index` is not incremented
      createUniformBuffers buffer_index rest created.tail
        (buffers.set buffer_index (created.headD noBuffer))
    else createUniformBuffers buffer_index rest created buffers

/-- The buffers created, with their sizes. -/
def createdWith (bindings : List BindingInfo) (created : List Buffer) : List (Buffer × Nat) :=
  created.zip ((structBindings bindings).map (·.struct_size))

/-- The buffers that the calls create for a material, with their sizes. -/
def createdFor (n : Nat) (calls : List UniformCall) : List (Buffer × Nat) :=
  calls.filterMap fun
    | .create material buffer size => if material = n then some (buffer, size) else none
    | _ => none

/-- All buffers that the calls create. -/
def uniformsCreated (calls : List UniformCall) : List Buffer :=
  calls.filterMap fun
    | .create _ buffer _ => some buffer
    | _ => none

/-- `write_set`: the writes of descriptors, and the calls on buffers. The images of samplers are left
out. -/
def writeSet (mem : Mem) (buffers : List Buffer) :
    (i buffer_index : Nat) → List MaterialProperty → List DescriptorWrite × List UniformCall
  | _, _, [] => ([], [])
  | i, buffer_index, p :: rest =>
    let type := bindingTypeToVkDescriptorType p.type
    if p.type = .struct then
      let buffer := buffers.getD buffer_index noBuffer
      let later := writeSet mem buffers (i + 1) (buffer_index + 1) rest
      (⟨i, type, some (buffer.buffer, p.struct_size)⟩ :: later.1,
        .write buffer (mem.load p.pstruct p.struct_size) :: later.2)
    else
      let later := writeSet mem buffers (i + 1) buffer_index rest
      (⟨i, type, none⟩ :: later.1, later.2)

end Buffers

/-! ### Operations -/

section Operations

variable (E : SMatEnv)

/-- `smat_new_from_blueprint`; the device returns the buffers `created`, which are new. -/
def newFromBlueprint (s : UniformRun) (b : Nat) (blocks : List Nat) (result : E.material.Value)
    (created : List Buffer) : Option UniformRun :=
  (smatNewFromBlueprint E s.smat b blocks result).bind fun smat =>
    (smat.origins.getLast?.bind fun slot => s.smat.properties[slot]?).bind fun properties =>
      (allocCopyOrZeroProperties properties blocks).bind fun copied =>
        let bindings := properties.map MaterialProperty.binding
        if created.length = (structBindings bindings).length ∧ created.Nodup ∧
            ∀ buffer ∈ created, buffer.buffer ≠ 0 ∧ buffer ∉ uniformsCreated s.calls then
          some
            { smat
              gpu := s.gpu ++ [⟨0, createUniformBuffers 0 bindings created
                (List.replicate maxUniformBuffers noBuffer), copied⟩]
              calls := s.calls ++ (createdWith bindings created).map fun buffer =>
                .create s.gpu.length buffer.1 buffer.2 }
        else none

/-- `smat_prep` for a material, in a memory: the writes of the property set. -/
def smatPrep (s : UniformRun) (token : Nat) (mem : Mem) : Option (List DescriptorWrite × UniformRun) :=
  (s.smat.materials.held token).bind fun handle =>
    (intmapTryget E.material.intmap s.smat.materials.map.idmap handle.id).bind fun found =>
      -- `USE_HANDLE`: a null pointer is dereferenced
      found.bind fun slot => s.gpu[slot]?.bind fun material =>
        -- `buffers[buffer_index++]` beyond the array
        if maxUniformBuffers < (structs material.properties).length then none
        else
          let written := writeSet mem material.buffers 0 0 material.properties
          some (written.1, { s with calls := s.calls ++ written.2 })

/-- The calls of `free_material`. -/
def freeUniforms (s : UniformRun) (slot : Nat) : List UniformCall :=
  match s.gpu[slot]? with
  | some material => (material.buffers.take material.num_buffers).map .free
  | none => []

/-- What the clients do. -/
inductive UniformOp where
  | newFromBlueprint (b : Nat) (blocks : List Nat) (result : E.material.Value) (created : List Buffer)
  | prep (token : Nat) (mem : Mem)
  /-- any other operation on blueprints and materials, such as a drop -/
  | other (op : SMatOp E)

/-- An operation; `free_material` is called on the materials that it frees. -/
def uniformStep (s : UniformRun) : UniformOp E → Option UniformRun
  | .newFromBlueprint b blocks result created => newFromBlueprint E s b blocks result created
  | .prep token mem => (smatPrep E s token mem).map Prod.snd
  | .other (.newFromBlueprint _ _ _) => none
  | .other op => (smatStep E s.smat op).map fun smat =>
      { s with
        smat
        calls := s.calls ++ ((smat.frees.drop s.smat.frees.length).filterMap
          SMatFree.materialSlot).flatMap (freeUniforms s) }

/-- `smat_init`, as far as materials are concerned. -/
def uniformInit (material blueprint : Nat) (mem mem' : Mem) : Option UniformRun :=
  (smatInit E material blueprint mem mem').map fun smat => ⟨smat, [], []⟩

end Operations

/-! ### Own buffers -/

section Own

/-- **A distinct buffer for every struct property** of the material, of its size. -/
structure HasBuffers (s : UniformRun) (n : Nat) (material : GPUMaterial) : Prop where
  sizes : (createdFor n s.calls).map (·.2) = (structs material.properties).map (·.struct_size)
  distinct : ((createdFor n s.calls).map (·.1)).Nodup
  held : material.buffers.take (structs material.properties).length =
    (createdFor n s.calls).map (·.1)

/-- **`write_set` uses the material's own buffers**: it writes the bytes of the m-th struct property into the
m-th buffer, and no others, and binds that buffer at the position of the property. -/
structure WritesOwn (s : UniformRun) (n : Nat) (material : GPUMaterial) (mem : Mem) : Prop where
  count : (writeSet mem material.buffers 0 0 material.properties).2.length =
    (structs material.properties).length
  bytes : ∀ (m : Nat) (p : MaterialProperty), (structs material.properties)[m]? = some p →
    ∃ buffer, ((createdFor n s.calls).map (·.1))[m]? = some buffer ∧
      (writeSet mem material.buffers 0 0 material.properties).2[m]? =
        some (.write buffer (mem.load p.pstruct p.struct_size))
  bound : ∀ (i : Nat) (p : MaterialProperty), material.properties[i]? = some p → p.type = .struct →
    ∃ buffer, ((createdFor n s.calls).map (·.1))[(structs (material.properties.take i)).length]? =
        some buffer ∧
      (writeSet mem material.buffers 0 0 material.properties).1[i]? =
        some ⟨i, bindingTypeToVkDescriptorType p.type, some (buffer.buffer, p.struct_size)⟩

/-- **Struct properties have their own buffers**: every material has them, `write_set` uses them, and they
are freed once with the material. -/
structure OwnUniforms (s : UniformRun) : Prop where
  has : ∀ (n : Nat) (material : GPUMaterial), s.gpu[n]? = some material → HasBuffers s n material
  writes : ∀ (n : Nat) (material : GPUMaterial), s.gpu[n]? = some material →
    ∀ mem, WritesOwn s n material mem
  freed : ∀ (n : Nat), ∀ buffer ∈ createdFor n s.calls,
    s.calls.count (.free buffer.1) = if .material n ∈ s.smat.frees then 1 else 0

end Own

/-! ### One loop over the properties -/

section Loops

variable {bindings : List BindingInfo} {properties copied : List MaterialProperty} {blocks : List Nat}
  {created buffers : List Buffer} {mem : Mem}

theorem structs_bindings (properties : List MaterialProperty) :
    structBindings (properties.map MaterialProperty.binding) =
      (structs properties).map MaterialProperty.binding := by
  unfold structBindings structs
  rw [List.filter_map]
  rfl

theorem structBindings_cons_struct {binding : BindingInfo} (kind : binding.type = .struct) :
    structBindings (binding :: bindings) = binding :: structBindings bindings :=
  List.filter_cons_of_pos (decide_eq_true kind)

theorem structBindings_cons_other {binding : BindingInfo} (kind : binding.type ≠ .struct) :
    structBindings (binding :: bindings) = structBindings bindings :=
  List.filter_cons_of_neg (by simpa using kind)

theorem structs_cons_struct {p : MaterialProperty} (kind : p.type = .struct) :
    structs (p :: properties) = p :: structs properties :=
  List.filter_cons_of_pos (decide_eq_true kind)

theorem structs_cons_other {p : MaterialProperty} (kind : p.type ≠ .struct) :
    structs (p :: properties) = structs properties :=
  List.filter_cons_of_neg (by simpa using kind)

/-- The copies have the bindings of the properties. -/
theorem allocCopyOrZero_bindings : ∀ {properties copied : List MaterialProperty} {blocks : List Nat},
    allocCopyOrZeroProperties properties blocks = some copied →
      copied.map MaterialProperty.binding = properties.map MaterialProperty.binding
  | [], _, _, copying => by
    cases copying
    rfl
  | src :: rest, copied, blocks, copying => by
    unfold allocCopyOrZeroProperties at copying
    split at copying
    · split at copying
      · cases copying
      · obtain ⟨dst, later, rfl⟩ := Option.map_eq_some_iff.mp copying
        rw [List.map_cons, List.map_cons, allocCopyOrZero_bindings later]
        rfl
    · obtain ⟨dst, later, rfl⟩ := Option.map_eq_some_iff.mp copying
      rw [List.map_cons, List.map_cons, allocCopyOrZero_bindings later]

/-- **Only the first place is written.** -/
theorem createUniformBuffers_places : ∀ (bindings : List BindingInfo) (created buffers : List Buffer),
    ∃ last, createUniformBuffers 0 bindings created buffers = buffers ∨
      createUniformBuffers 0 bindings created buffers = buffers.set 0 last
  | [], _, _ => ⟨noBuffer, Or.inl rfl⟩
  | binding :: rest, created, buffers => by
    unfold createUniformBuffers
    split
    · obtain ⟨last, same | same⟩ := createUniformBuffers_places rest created.tail
        (buffers.set 0 (created.headD noBuffer))
      · exact ⟨created.headD noBuffer, Or.inr same⟩
      · exact ⟨last, Or.inr (same.trans (List.set_set _))⟩
    · exact createUniformBuffers_places rest created buffers

theorem createUniformBuffers_none : ∀ {bindings : List BindingInfo}, structBindings bindings = [] →
    createUniformBuffers 0 bindings created buffers = buffers
  | [], _ => rfl
  | binding :: rest, none_ => by
    unfold createUniformBuffers
    by_cases kind : binding.type = .struct
    · rw [structBindings_cons_struct kind] at none_
      cases none_
    · rw [structBindings_cons_other kind] at none_
      rw [if_neg kind]
      exact createUniformBuffers_none none_

/-- One struct gets its buffer into the first place. -/
theorem createUniformBuffers_one {buffer : Buffer} : ∀ {bindings : List BindingInfo},
    (structBindings bindings).length = 1 →
      createUniformBuffers 0 bindings [buffer] buffers = buffers.set 0 buffer
  | binding :: rest, one => by
    unfold createUniformBuffers
    by_cases kind : binding.type = .struct
    · rw [structBindings_cons_struct kind, List.length_cons] at one
      rw [if_pos kind]
      exact createUniformBuffers_none (List.length_eq_zero_iff.mp (Nat.succ.inj one))
    · rw [structBindings_cons_other kind] at one
      rw [if_neg kind]
      exact createUniformBuffers_one one

/-- **The calls of `write_set`**: the m-th struct property goes into place `buffer_index + m`. -/
theorem writeSet_calls (mem : Mem) (buffers : List Buffer) :
    ∀ (properties : List MaterialProperty) (i buffer_index : Nat),
    (writeSet mem buffers i buffer_index properties).2.length = (structs properties).length ∧
      ∀ (m : Nat) (p : MaterialProperty), (structs properties)[m]? = some p →
        (writeSet mem buffers i buffer_index properties).2[m]? = some
          (.write (buffers.getD (buffer_index + m) noBuffer) (mem.load p.pstruct p.struct_size))
  | [], _, _ => ⟨rfl, fun _ _ here => nomatch here⟩
  | first :: rest, i, buffer_index => by
    unfold writeSet
    by_cases kind : first.type = .struct
    · obtain ⟨count, later⟩ := writeSet_calls mem buffers rest (i + 1) (buffer_index + 1)
      rw [structs_cons_struct kind]
      simp only [if_pos kind]
      refine ⟨congrArg (· + 1) count, fun m p here => ?_⟩
      cases m with
      | zero =>
        cases here
        rfl
      | succ m =>
        have place : buffer_index + 1 + m = buffer_index + (m + 1) := by omega
        rw [← place]
        exact later m p here
    · obtain ⟨count, later⟩ := writeSet_calls mem buffers rest (i + 1) buffer_index
      rw [structs_cons_other kind]
      simp only [if_neg kind]
      exact ⟨count, later⟩

/-- **The writes of descriptors**: a struct property is bound to the place that it was written into. -/
theorem writeSet_bound : ∀ (properties : List MaterialProperty) (i buffer_index x : Nat)
    (p : MaterialProperty), properties[x]? = some p → p.type = .struct →
      (writeSet mem buffers i buffer_index properties).1[x]? =
        some ⟨i + x, bindingTypeToVkDescriptorType p.type,
          some ((buffers.getD (buffer_index + (structs (properties.take x)).length) noBuffer).buffer,
            p.struct_size)⟩
  | first :: rest, i, buffer_index, 0, p, here, kind => by
    cases here
    unfold writeSet
    simp only [if_pos kind]
    rfl
  | first :: rest, i, buffer_index, x + 1, p, here, kind => by
    have later : i + (x + 1) = i + 1 + x := by omega
    unfold writeSet
    rw [later, List.take_succ_cons]
    by_cases kind' : first.type = .struct
    · have place : buffer_index + ((structs (rest.take x)).length + 1) =
          buffer_index + 1 + (structs (rest.take x)).length := by omega
      rw [structs_cons_struct kind', List.length_cons, place]
      simp only [if_pos kind']
      exact writeSet_bound rest (i + 1) (buffer_index + 1) x p here kind
    · rw [structs_cons_other kind']
      simp only [if_neg kind']
      exact writeSet_bound rest (i + 1) buffer_index x p here kind

end Loops

/-! ### What runs leave -/

section Runs

variable {E : SMatEnv} {s t : UniformRun} {n : Nat} {material : GPUMaterial} {op : UniformOp E}

/-- **How a material was made**: a new buffer for each struct property, all put into the first place, and none
of them counted. -/
structure MadeWith (calls : List UniformCall) (n : Nat) (material : GPUMaterial) (created : List Buffer) :
    Prop where
  uncounted : material.num_buffers = 0
  count : created.length = (structs material.properties).length
  distinct : created.Nodup
  exist : ∀ buffer ∈ created, buffer.buffer ≠ 0
  calls : createdFor n calls = createdWith (material.properties.map MaterialProperty.binding) created
  places : material.buffers = createUniformBuffers 0 (material.properties.map MaterialProperty.binding) created
    (List.replicate maxUniformBuffers noBuffer)

/-- The materials of a run. -/
structure UniformsMade (s : UniformRun) : Prop where
  made : ∀ (n : Nat) (material : GPUMaterial), s.gpu[n]? = some material →
    ∃ created, MadeWith s.calls n material created
  later : ∀ n, s.gpu.length ≤ n → createdFor n s.calls = []
  kept : ∀ buffer, .free buffer ∉ s.calls

theorem createdFor_append (calls more : List UniformCall) :
    createdFor n (calls ++ more) = createdFor n calls ++ createdFor n more := List.filterMap_append

/-- Calls that create nothing for any material, and free nothing. -/
theorem UniformsMade.append (made : UniformsMade s) {smat : SMat} {calls : List UniformCall}
    (none_ : ∀ n, createdFor n calls = []) (kept : ∀ buffer, .free buffer ∉ calls) :
    UniformsMade { s with smat, calls := s.calls ++ calls } := by
  have same : ∀ n, createdFor n (s.calls ++ calls) = createdFor n s.calls := fun n => by
    rw [createdFor_append, none_, List.append_nil]
  refine ⟨fun n material here => ?_, fun n outside => ?_, fun buffer member => ?_⟩
  · obtain ⟨created, with_⟩ := made.made n material here
    exact ⟨created, with_.uncounted, with_.count, with_.distinct, with_.exist,
      (same n).trans with_.calls, with_.places⟩
  · exact (same n).trans (made.later n outside)
  · rcases List.mem_append.mp member with before | now
    · exact made.kept buffer before
    · exact kept buffer now

theorem createdFor_creates (made : List (Buffer × Nat)) (n : Nat) :
    createdFor n (made.map fun buffer => .create n buffer.1 buffer.2) = made := by
  unfold createdFor
  rw [List.filterMap_map]
  have all : ((fun call : UniformCall => match call with
      | .create material buffer size => if material = n then some (buffer, size) else none
      | _ => none) ∘ fun buffer : Buffer × Nat => UniformCall.create n buffer.1 buffer.2) = some := by
    funext buffer
    exact if_pos rfl
  rw [all, List.filterMap_some]

theorem createdFor_others {m : Nat} (other : m ≠ n) (made : List (Buffer × Nat)) :
    createdFor n (made.map fun buffer => .create m buffer.1 buffer.2) = [] := by
  unfold createdFor
  rw [List.filterMap_map]
  exact List.filterMap_eq_nil_iff.mpr fun buffer _ => if_neg other

/-- **A material more.** -/
theorem UniformsMade.newFromBlueprint {b : Nat} {blocks : List Nat} {result : E.material.Value}
    {created : List Buffer} (made : UniformsMade s)
    (stepped : newFromBlueprint E s b blocks result created = some t) : UniformsMade t := by
  obtain ⟨smat, -, stepped⟩ := Option.bind_eq_some_iff.mp stepped
  obtain ⟨properties, -, stepped⟩ := Option.bind_eq_some_iff.mp stepped
  obtain ⟨copied, copying, stepped⟩ := Option.bind_eq_some_iff.mp stepped
  obtain ⟨⟨count, distinct, fresh⟩, same⟩ := Option.ite_none_right_eq_some.mp stepped
  obtain rfl := Option.some.inj same
  have bindings := allocCopyOrZero_bindings copying
  rw [← bindings, structs_bindings, List.length_map] at count
  refine ⟨fun n material here => ?_, fun n outside => ?_, fun buffer member => ?_⟩
  · rcases Nat.lt_or_ge n s.gpu.length with old | new
    · rw [List.getElem?_append_left old] at here
      obtain ⟨created', with_⟩ := made.made n material here
      refine ⟨created', with_.uncounted, with_.count, with_.distinct, with_.exist, ?_, with_.places⟩
      rw [createdFor_append, createdFor_others (Nat.ne_of_gt old), List.append_nil]
      exact with_.calls
    · rw [List.getElem?_append_right new] at here
      obtain ⟨inside, last⟩ := List.getElem?_eq_some_iff.mp here
      have first : n = s.gpu.length := by
        rw [List.length_singleton] at inside
        omega
      subst first
      simp only [Nat.sub_self, List.getElem_cons_zero] at last
      subst last
      refine ⟨created, rfl, count, distinct, fun buffer member => (fresh buffer member).1, ?_, ?_⟩
      · rw [createdFor_append, made.later _ le_rfl, List.nil_append, createdFor_creates]
        exact congrArg (createdWith · created) bindings.symm
      · exact congrArg (createUniformBuffers 0 · created _) bindings.symm
  · rw [List.length_append, List.length_singleton] at outside
    show createdFor n (s.calls ++ _) = []
    rw [createdFor_append, made.later n (by omega), createdFor_others (by omega), List.append_nil]
  · rcases List.mem_append.mp member with before | now
    · exact made.kept buffer before
    · obtain ⟨_, _, same⟩ := List.mem_map.mp now
      cases same

theorem writeSet_onlyWrites (mem : Mem) (buffers : List Buffer) : ∀ (properties : List MaterialProperty)
    (i buffer_index : Nat), ∀ call ∈ (writeSet mem buffers i buffer_index properties).2,
      ∃ buffer bytes, call = .write buffer bytes
  | first :: rest, i, buffer_index, call, member => by
    unfold writeSet at member
    split at member
    · rcases List.mem_cons.mp member with rfl | member
      · exact ⟨_, _, rfl⟩
      · exact writeSet_onlyWrites mem buffers rest _ _ call member
    · exact writeSet_onlyWrites mem buffers rest _ _ call member

/-- No material counts its buffers, so none is freed. -/
theorem UniformsMade.frees_nothing (made : UniformsMade s) (slot : Nat) : freeUniforms s slot = [] := by
  unfold freeUniforms
  split
  · next material here =>
    obtain ⟨created, with_⟩ := made.made slot material here
    rw [with_.uncounted]
    rfl
  · rfl

/-- **Every operation.** -/
theorem UniformsMade.step (s : UniformRun) (op : UniformOp E) (t : UniformRun) (made : UniformsMade s)
    (stepped : uniformStep E s op = some t) : UniformsMade t := by
  have others : ∀ {op : SMatOp E}, (smatStep E s.smat op).map (fun smat => { s with
      smat
      calls := s.calls ++ ((smat.frees.drop s.smat.frees.length).filterMap
        SMatFree.materialSlot).flatMap (freeUniforms s) }) = some t → UniformsMade t := by
    intro op stepped
    obtain ⟨smat, -, rfl⟩ := Option.map_eq_some_iff.mp stepped
    have none_ : ∀ slots : List Nat, slots.flatMap (freeUniforms s) = [] := fun slots =>
      List.flatMap_eq_nil_iff.mpr fun slot _ => made.frees_nothing slot
    rw [none_]
    exact made.append (fun _ => rfl) fun _ member => nomatch member
  cases op with
  | newFromBlueprint b blocks result created => exact made.newFromBlueprint stepped
  | prep token mem =>
    obtain ⟨⟨written, t'⟩, prepared, rfl⟩ := Option.map_eq_some_iff.mp stepped
    obtain ⟨handle, -, prepared⟩ := Option.bind_eq_some_iff.mp prepared
    obtain ⟨found, -, prepared⟩ := Option.bind_eq_some_iff.mp prepared
    obtain ⟨slot, -, prepared⟩ := Option.bind_eq_some_iff.mp prepared
    obtain ⟨material, -, prepared⟩ := Option.bind_eq_some_iff.mp prepared
    obtain ⟨-, same⟩ := Option.ite_none_left_eq_some.mp prepared
    cases same
    have writes := writeSet_onlyWrites mem material.buffers material.properties 0 0
    refine made.append (fun n => ?_) fun buffer member => ?_
    · refine List.filterMap_eq_nil_iff.mpr fun call member => ?_
      obtain ⟨buffer, bytes, rfl⟩ := writes call member
      rfl
    · obtain ⟨_, _, same⟩ := writes _ member
      cases same
  | other op =>
    cases op with
    | newFromBlueprint => cases stepped
    | newBlueprint | copyBlueprint | dropBlueprint | copyMaterial | dropMaterial => exact others stepped

theorem UniformsMade.init {material blueprint : Nat} {mem mem' : Mem}
    (started : uniformInit E material blueprint mem mem' = some s) : UniformsMade s := by
  obtain ⟨smat, -, rfl⟩ := Option.map_eq_some_iff.mp started
  refine ⟨fun n material here => ?_, fun _ _ => rfl, fun buffer member => ?_⟩
  · cases here
  · cases member

/-! ### Own buffers -/

variable {created : List Buffer}

/-- What was created for a material. -/
theorem MadeWith.pairs (made : MadeWith s.calls n material created) :
    (createdFor n s.calls).map (·.1) = created ∧
      (createdFor n s.calls).map (·.2) = (structs material.properties).map (·.struct_size) := by
  have sizes : (structBindings (material.properties.map MaterialProperty.binding)).map (·.struct_size) =
      (structs material.properties).map (·.struct_size) := by
    rw [structs_bindings, List.map_map]
    rfl
  have length : created.length = ((structs material.properties).map (·.struct_size)).length := by
    rw [List.length_map]
    exact made.count
  rw [made.calls, createdWith, sizes]
  exact ⟨List.map_fst_zip length.le, List.map_snd_zip length.ge⟩

/-- **One struct property has its own buffer**, and none needs none. -/
theorem MadeWith.places_few (made : MadeWith s.calls n material created)
    (few : (structs material.properties).length ≤ 1) :
    material.buffers.take (structs material.properties).length = created := by
  have structCount : (structBindings (material.properties.map MaterialProperty.binding)).length =
      (structs material.properties).length := by
    rw [structs_bindings, List.length_map]
  rw [made.places, ← made.count]
  rw [← made.count] at few structCount
  match created, few, structCount with
  | [], _, _ => rfl
  | [buffer], _, one =>
    rw [createUniformBuffers_one one]
    rfl

/-- **Two struct properties share the first place.** -/
theorem MadeWith.shared (made : MadeWith s.calls n material created)
    (held : material.buffers.take (structs material.properties).length = created) :
    (structs material.properties).length ≤ 1 := by
  by_contra many
  have inside : 1 < created.length := by
    rw [made.count]
    omega
  have second : material.buffers[1]? = some created[1] := by
    rw [← List.getElem?_eq_getElem inside]
    conv_rhs => rw [← held]
    rw [List.getElem?_take_of_lt (by omega)]
  have empty : material.buffers[1]? = some noBuffer := by
    rw [made.places]
    obtain ⟨last, same | same⟩ := createUniformBuffers_places
      (material.properties.map MaterialProperty.binding) created (List.replicate maxUniformBuffers noBuffer)
    · rw [same]
      rfl
    · rw [same]
      rfl
  rw [empty] at second
  exact made.exist created[1] (List.getElem_mem inside) (congrArg Buffer.buffer (Option.some.inj second).symm)

/-- `write_set` takes the buffers that the material holds. -/
theorem HasBuffers.writesOwn (has : HasBuffers s n material) (mem : Mem) : WritesOwn s n material mem := by
  have place : ∀ {m : Nat} {buffer : Buffer}, ((createdFor n s.calls).map (·.1))[m]? = some buffer →
      material.buffers.getD m noBuffer = buffer := by
    intro m buffer here
    rw [← has.held, List.getElem?_take] at here
    obtain ⟨-, here⟩ := Option.ite_none_right_eq_some.mp here
    rw [List.getD_eq_getElem?_getD, here]
    rfl
  have length : ((createdFor n s.calls).map (·.1)).length = (structs material.properties).length := by
    rw [List.length_map, ← List.length_map (f := fun buffer : Buffer × Nat => buffer.2), has.sizes,
      List.length_map]
  have hasPlace : ∀ m, m < (structs material.properties).length →
      ∃ buffer, ((createdFor n s.calls).map (·.1))[m]? = some buffer :=
    fun m inside => ⟨_, List.getElem?_eq_getElem (length ▸ inside)⟩
  obtain ⟨count, calls⟩ := writeSet_calls mem material.buffers material.properties 0 0
  refine ⟨count, fun m p here => ?_, fun i p here kind => ?_⟩
  · obtain ⟨inside, -⟩ := List.getElem?_eq_some_iff.mp here
    obtain ⟨buffer, own⟩ := hasPlace m inside
    refine ⟨buffer, own, ?_⟩
    rw [calls m p here, Nat.zero_add, place own]
  · have inside : (structs (material.properties.take i)).length < (structs material.properties).length := by
      obtain ⟨within, rfl⟩ := List.getElem?_eq_some_iff.mp here
      have split : structs material.properties = structs (material.properties.take i) ++
          structs (material.properties.drop i) := by
        unfold structs
        rw [← List.filter_append, List.take_append_drop]
      rw [split, List.length_append, List.drop_eq_getElem_cons within, structs_cons_struct kind,
        List.length_cons]
      omega
    obtain ⟨buffer, own⟩ := hasPlace _ inside
    refine ⟨buffer, own, ?_⟩
    rw [writeSet_bound _ 0 0 i p here kind, Nat.zero_add, Nat.zero_add, place own]

/-- **The struct properties of materials have their own buffers** exactly when no material has two of them, and
none that was freed had any. -/
theorem uniforms_own_iff {blueprintMap materialMap : Nat} {mem mem' : Mem} {start : UniformRun}
    {ops : List (UniformOp E)} (started : uniformInit E materialMap blueprintMap mem mem' = some start)
    (ran : run (uniformStep E) start ops = some s) :
    OwnUniforms s ↔ ∀ (n : Nat) (material : GPUMaterial), s.gpu[n]? = some material →
      (structs material.properties).length ≤ 1 ∧
        (.material n ∈ s.smat.frees → (structs material.properties).length = 0) := by
  have made := run_invariant UniformsMade.step ran (UniformsMade.init started)
  have uncalled : ∀ buffer, s.calls.count (.free buffer) = 0 := fun buffer =>
    List.count_eq_zero.mpr (made.kept buffer)
  constructor
  · intro own n material here
    obtain ⟨created, with_⟩ := made.made n material here
    have held := (own.has n material here).held
    rw [with_.pairs.1] at held
    refine ⟨with_.shared held, fun freed => ?_⟩
    rw [← with_.count, List.length_eq_zero_iff, ← with_.pairs.1, List.map_eq_nil_iff]
    refine List.eq_nil_iff_forall_not_mem.mpr fun buffer member => ?_
    have once := own.freed n buffer member
    rw [uncalled, if_pos freed] at once
    cases once
  · intro few
    have has : ∀ (n : Nat) (material : GPUMaterial), s.gpu[n]? = some material → HasBuffers s n material := by
      intro n material here
      obtain ⟨created, with_⟩ := made.made n material here
      refine ⟨with_.pairs.2, ?_, ?_⟩
      · rw [with_.pairs.1]
        exact with_.distinct
      · rw [with_.pairs.1]
        exact with_.places_few (few n material here).1
    refine ⟨has, fun n material here mem => (has n material here).writesOwn mem, fun n buffer member => ?_⟩
    rw [uncalled, if_neg]
    intro freed
    rcases Nat.lt_or_ge n s.gpu.length with inside | outside
    · have here := List.getElem?_eq_getElem inside
      obtain ⟨created, with_⟩ := made.made n _ here
      have none_ := (few n _ here).2 freed
      rw [← with_.count, List.length_eq_zero_iff, ← with_.pairs.1, List.map_eq_nil_iff] at none_
      rw [none_] at member
      cases member
    · rw [made.later n outside] at member
      cases member

/-- A material with a struct and a sampler that is prepared, and one with a sampler that is dropped. -/
def oneStructOps : List (UniformOp pairSMat) :=
  [.other (.newBlueprint [⟨.struct, 8, 32⟩, ⟨.sampler2d, 0, 0⟩] [64] (pairValue 1 2)),
    .other (.newBlueprint [⟨.sampler2d, 0, 0⟩] [] (pairValue 1 2)),
    .newFromBlueprint 0 [96] (pairValue 3 4) [⟨5, 50⟩], .newFromBlueprint 1 [] (pairValue 5 6) [],
    .prep 0 fun _ => 7, .other (.dropMaterial 1)]

/-- A material with two structs. -/
def twoStructOps : List (UniformOp pairSMat) :=
  [.other (.newBlueprint [⟨.struct, 8, 32⟩, ⟨.struct, 4, 48⟩] [64, 72] (pairValue 1 2)),
    .newFromBlueprint 0 [96, 104] (pairValue 3 4) [⟨5, 50⟩, ⟨6, 60⟩]]

theorem structOps_run :
    ((uniformInit pairSMat 8 16 (fun _ => 0) fun _ => 0).bind fun start =>
      (run (uniformStep pairSMat) start oneStructOps).map fun s =>
        (s.gpu.map fun material => (structs material.properties).length, s.smat.frees)) =
      some ([1, 0], [.material 1]) ∧
    ((uniformInit pairSMat 8 16 (fun _ => 0) fun _ => 0).bind fun start =>
      (run (uniformStep pairSMat) start twoStructOps).map fun s =>
        (s.gpu.map fun material => (material.buffers, (structs material.properties).length),
          createdFor 0 s.calls)) =
      some ([([⟨6, 60⟩, ⟨0, 0⟩, ⟨0, 0⟩], 2)], [(⟨5, 50⟩, 8), (⟨6, 60⟩, 4)]) := by
  decide +kernel

theorem uniforms_own_one : ∃ start s,
    uniformInit pairSMat 8 16 (fun _ => 0) (fun _ => 0) = some start ∧
    run (uniformStep pairSMat) start oneStructOps = some s ∧ OwnUniforms s := by
  obtain ⟨start, started, ran⟩ := Option.bind_eq_some_iff.mp structOps_run.1
  obtain ⟨s, ran, same⟩ := Option.map_eq_some_iff.mp ran
  obtain ⟨counts, frees⟩ := Prod.mk.inj same
  refine ⟨start, s, started, ran, (uniforms_own_iff started ran).mpr fun n material here => ?_⟩
  have count : [1, 0][n]? = some (structs material.properties).length := by
    rw [← counts, List.getElem?_map, here]
    rfl
  rw [frees]
  match n, count with
  | 0, count =>
    have one := Option.some.inj count
    exact ⟨one.ge, fun freed => absurd freed (by decide)⟩
  | 1, count =>
    have none_ := Option.some.inj count
    exact ⟨by omega, fun _ => none_.symm⟩

/-- **Two struct properties**: both buffers were put into the first place, and the second has none. -/
theorem second_buffer_missing : ∃ start s,
    uniformInit pairSMat 8 16 (fun _ => 0) (fun _ => 0) = some start ∧
    run (uniformStep pairSMat) start twoStructOps = some s ∧
    createdFor 0 s.calls = [(⟨5, 50⟩, 8), (⟨6, 60⟩, 4)] ∧
    (s.gpu.map fun material => material.buffers) = [[⟨6, 60⟩, ⟨0, 0⟩, ⟨0, 0⟩]] ∧ ¬ OwnUniforms s := by
  obtain ⟨start, started, ran⟩ := Option.bind_eq_some_iff.mp structOps_run.2
  obtain ⟨s, ran, same⟩ := Option.map_eq_some_iff.mp ran
  obtain ⟨gpu, created⟩ := Prod.mk.inj same
  have buffers : (s.gpu.map fun material => material.buffers) = [[⟨6, 60⟩, ⟨0, 0⟩, ⟨0, 0⟩]] := by
    have first := congrArg (List.map Prod.fst) gpu
    rw [List.map_map] at first
    exact first
  refine ⟨start, s, started, ran, created, buffers, fun own => ?_⟩
  have one := congrArg List.length gpu
  rw [List.length_map] at one
  obtain ⟨material, places⟩ := List.length_eq_one_iff.mp one
  rw [places] at gpu
  obtain ⟨held, count⟩ := Prod.mk.inj (List.cons.inj gpu).1
  have missing := (own.has 0 material (by rw [places]; rfl)).held
  rw [count, held, created] at missing
  exact absurd missing (by decide)

end Runs

end Vaudou
