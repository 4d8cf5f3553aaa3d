/-
**Descriptor set layouts, and the writes into their sets.**

`smat_init` and `smat_new_blueprint` leave the binding number of every entry of a layout at 0, and
`write_set` numbers its writes by position.

* **`layouts_agree_iff`** — the layouts of both sets have distinct numbers, and those of the writes among them
  with the same types, exactly when neither has more than one entry.
-/

import Mathlib.Data.List.Nodup
import Vaudou.Renderer.UniformBuffers

namespace Vaudou

open Vaudou.Memory

section Layouts

/-- `VkDescriptorSetLayoutBinding`. -/
structure LayoutBinding where
  binding : Nat
  descriptorType : Nat
  descriptorCount : Nat
  stageFlags : Nat
deriving DecidableEq, Repr

/-- `VK_SHADER_STAGE_VERTEX_BIT | VK_SHADER_STAGE_FRAGMENT_BIT`. -/
def vertexAndFragment : Nat := 0x1 ||| 0x10

/-- The entry of a layout for a binding of this type. -/
def layoutBinding (type : BindingType) : LayoutBinding :=
  ⟨0, bindingTypeToVkDescriptorType type, 1, vertexAndFragment⟩

/-- The bindings of `set0_layout` in `smat_init`, which does not set their numbers. -/
def set0Layout (set0_bindings : List BindingInfo) : List LayoutBinding :=
  set0_bindings.map fun binding => layoutBinding binding.type

/-- The bindings of `property_layout` in `smat_new_blueprint`, with `.binding = 0`. -/
def propertyLayout (properties : List MaterialProperty) : List LayoutBinding :=
  properties.map fun property => layoutBinding property.type

/-- **A layout agrees with the writes into a set of it**: its numbers are distinct, and the number of every
write is one of them, with the type of the write. -/
structure LayoutAgrees (layout : List LayoutBinding) (writes : List DescriptorWrite) : Prop where
  distinct : (layout.map (·.binding)).Nodup
  present : ∀ write ∈ writes, ∃ entry ∈ layout, entry.binding = write.dstBinding ∧
    entry.descriptorType = write.descriptorType

end Layouts

section Agreement

variable {layout : List LayoutBinding} {types : List BindingType} {properties : List MaterialProperty}
  {mem : Mem} {buffers : List Buffer}

variable (mem buffers) in
/-- The writes are numbered by position, and have the types of the properties. -/
theorem writeSet_numbers : ∀ (properties : List MaterialProperty) (i buffer_index : Nat),
    (writeSet mem buffers i buffer_index properties).1.map
        (fun write => (write.dstBinding, write.descriptorType)) =
      properties.mapIdx fun x property => (i + x, bindingTypeToVkDescriptorType property.type)
  | [], _, _ => rfl
  | first :: rest, i, buffer_index => by
    have later : ∀ index, (writeSet mem buffers (i + 1) index rest).1.map
        (fun write => (write.dstBinding, write.descriptorType)) =
        rest.mapIdx fun x property => (i + (x + 1), bindingTypeToVkDescriptorType property.type) := by
      intro index
      rw [writeSet_numbers rest (i + 1) index]
      simp only [Nat.add_assoc, Nat.add_comm 1]
    rw [List.mapIdx_cons]
    unfold writeSet
    by_cases kind : first.type = .struct
    · simp only [if_pos kind, List.map_cons, later]
      rfl
    · simp only [if_neg kind, List.map_cons, later]
      rfl

variable (mem buffers) in
/-- **A layout agrees with its writes** exactly when it has at most one entry. -/
theorem layoutAgrees_iff (same : properties.map (·.type) = types) :
    LayoutAgrees (types.map layoutBinding) (writeSet mem buffers 0 0 properties).1 ↔ types.length ≤ 1 := by
  constructor
  · intro agrees
    have zeros : (types.map layoutBinding).map (·.binding) = List.replicate types.length 0 := by
      rw [List.map_map, ← List.map_const']
      rfl
    have distinct := agrees.distinct
    rw [zeros] at distinct
    exact List.nodup_replicate.mp distinct
  · intro few
    have length := congrArg List.length same
    rw [List.length_map] at length
    match properties, types, few, length with
    | [], [], _, _ => exact ⟨List.nodup_nil, fun write member => nomatch member⟩
    | [property], [type], _, _ =>
      obtain ⟨rfl, -⟩ := List.cons.inj same
      refine ⟨List.nodup_singleton _, fun write member => ?_⟩
      refine ⟨layoutBinding property.type, List.mem_singleton_self _, ?_⟩
      have numbers := writeSet_numbers mem buffers [property] 0 0
      have here := List.mem_map_of_mem (f := fun write => (write.dstBinding, write.descriptorType)) member
      rw [numbers] at here
      obtain ⟨number, kind⟩ := Prod.mk.inj (List.mem_singleton.mp here)
      exact ⟨number.symm, kind.symm⟩

/-- **The layouts of both sets agree with the writes** exactly when neither has more than one entry. The
properties of set 0 have the types of its bindings, and those of a material the types of the blueprint's
properties. -/
theorem layouts_agree_iff {set0_bindings : List BindingInfo} {set0_properties material : List MaterialProperty}
    (set0 : set0_properties.map (·.type) = set0_bindings.map (·.type))
    (copied : material.map (·.type) = properties.map (·.type)) (mem : Mem) (buffers set0_buffers : List Buffer) :
    LayoutAgrees (set0Layout set0_bindings) (writeSet mem set0_buffers 0 0 set0_properties).1 ∧
        LayoutAgrees (propertyLayout properties) (writeSet mem buffers 0 0 material).1 ↔
      set0_bindings.length ≤ 1 ∧ properties.length ≤ 1 := by
  have first := layoutAgrees_iff mem set0_buffers set0
  have second := layoutAgrees_iff mem buffers copied
  rw [List.map_map, List.length_map] at first second
  exact and_congr first second

/-- One binding in set 0, and a blueprint with one sampler. -/
theorem layouts_agree_single :
    LayoutAgrees (set0Layout [⟨.struct, 160⟩]) (writeSet (fun _ => 0) [⟨5, 50⟩] 0 0 [⟨.struct, 160, 32⟩]).1 ∧
      LayoutAgrees (propertyLayout [⟨.sampler2d, 0, 0⟩]) (writeSet (fun _ => 0) [] 0 0 [⟨.sampler2d, 0, 0⟩]).1 := by
  have set0 : [(⟨.struct, 160, 32⟩ : MaterialProperty)].map (·.type) =
      [(⟨.struct, 160⟩ : BindingInfo)].map (·.type) := rfl
  exact (layouts_agree_iff set0 rfl (fun _ => 0) [] [⟨5, 50⟩]).mpr ⟨le_rfl, le_rfl⟩

/-- **Two properties**: both entries of the layout have number 0, and the second write goes to 1. -/
theorem second_binding_missing :
    (propertyLayout [⟨.struct, 8, 32⟩, ⟨.sampler2d, 0, 0⟩]).map (·.binding) = [0, 0] ∧
    (writeSet (fun _ => 0) [⟨5, 50⟩] 0 0 [⟨.struct, 8, 32⟩, ⟨.sampler2d, 0, 0⟩]).1.map (·.dstBinding) = [0, 1] ∧
    ¬ LayoutAgrees (propertyLayout [⟨.struct, 8, 32⟩, ⟨.sampler2d, 0, 0⟩])
      (writeSet (fun _ => 0) [⟨5, 50⟩] 0 0 [⟨.struct, 8, 32⟩, ⟨.sampler2d, 0, 0⟩]).1 :=
  ⟨rfl, rfl, fun agrees => absurd agrees.distinct (by decide)⟩

end Agreement

end Vaudou
